import FlvMeta.Check.TagVerdicts

/-!
# Files that a check accepts

On a file whose scripts hold a name and a value a check meets no error exactly if the file is valid
(`metConditions_iff_validFile`). The loop over the tags is followed record by record: `ValidRest` is
what is asked of the records that are left, behind what is remembered of the tags before.
-/

namespace FlvMeta

open Endian Stdio

variable {N : Type}

/-! ## A record of the file -/

section

variable {content : Bytes} {p : Nat} {tag : FlvTag}

/-- The tag at `p` as a record. -/
def recordAt (content : Bytes) (p : Nat) (tag : FlvTag) (h : Complete content p tag) : Record :=
  ⟨⟨tag, tagBody content p tag⟩, length_tagBody h⟩

theorem length_storedTagSize (hsize : nextTag p tag ≤ content.length) :
    ((content.drop (p + 11 + flvTagGetBodyLength tag)).take 4).length = 4 := by
  unfold nextTag at hsize
  rw [List.length_take, List.length_drop]
  omega

theorem flvTagSize_add_lt (tag : FlvTag) : flvTagSize + flvTagGetBodyLength tag < 2 ^ 32 := by
  have hlt := flvTagGetBodyLength_lt tag
  unfold flvTagSize
  omega

/-- A tag with the right size behind it is a record. -/
theorem drop_recordAt (htag : tag = flvTagOfBytes (content.drop p)) (h : Complete content p tag)
    (hsize : nextTag p tag ≤ content.length)
    (hstored : storedTagSize content p tag = flvTagSize + flvTagGetBodyLength tag) :
    content.drop p = (recordAt content p tag h).bytes ++ content.drop (nextTag p tag) := by
  have hheader : tag.bytes = (content.drop p).take 11 := by
    rw [htag]
    refine bytes_flvTagOfBytes ?_
    rw [List.length_drop]
    unfold nextTag at hsize
    omega
  have hstored' : (content.drop (p + 11 + flvTagGetBodyLength tag)).take 4 =
      toBE 4 (flvTagSize + (tagBody content p tag).length) := by
    rw [length_tagBody h]
    exact (swapUint32_ofLE_eq_iff (length_storedTagSize hsize) (flvTagSize_add_lt tag)).mp hstored
  have hnext : nextTag p tag = p + 11 + flvTagGetBodyLength tag + 4 := by
    unfold nextTag
    omega
  have hcut : ∀ q n, (content.drop q).take n ++ content.drop (q + n) = content.drop q :=
    fun q n => by rw [← List.drop_drop, List.take_append_drop]
  have hsplit : content.drop p = (content.drop p).take 11 ++
      ((content.drop (p + 11)).take (flvTagGetBodyLength tag) ++
        ((content.drop (p + 11 + flvTagGetBodyLength tag)).take 4 ++
          content.drop (p + 11 + flvTagGetBodyLength tag + 4))) := by
    rw [hcut, hcut, hcut]
  calc content.drop p
      = tag.bytes ++ (tagBody content p tag ++
          (toBE 4 (flvTagSize + (tagBody content p tag).length) ++
            content.drop (p + 11 + flvTagGetBodyLength tag + 4))) := by
        rw [hheader, ← hstored']
        exact hsplit
    _ = (recordAt content p tag h).bytes ++ content.drop (nextTag p tag) := by
        rw [hnext]
        simp only [recordAt, Record.bytes, Piece.bytes, List.append_assoc]

/-- What is found where a record starts. -/
theorem record_of_drop {r : Record} {rest : Bytes} (h : content.drop p = r.bytes ++ rest) :
    flvTagOfBytes (content.drop p) = r.tag ∧ tagBody content p r.tag = r.body ∧
      nextTag p r.tag ≤ content.length ∧
      storedTagSize content p r.tag = flvTagSize + flvTagGetBodyLength r.tag := by
  have hlength := congrArg List.length h
  rw [List.length_drop, List.length_append, r.length_bytes] at hlength
  have hbody := r.length_body
  unfold Piece.Fits at hbody
  have hsplit : content.drop p = r.tag.bytes ++ (r.body ++
      (toBE 4 (flvTagSize + flvTagGetBodyLength r.tag) ++ rest)) := by
    rw [h, Record.bytes, Piece.bytes, hbody]
    simp only [List.append_assoc]
  have hafterTag : content.drop (p + 11) = r.body ++
      (toBE 4 (flvTagSize + flvTagGetBodyLength r.tag) ++ rest) := by
    rw [← List.drop_drop, hsplit, List.drop_left' r.tag.length_bytes]
  have hafterBody : content.drop (p + 11 + flvTagGetBodyLength r.tag) =
      toBE 4 (flvTagSize + flvTagGetBodyLength r.tag) ++ rest := by
    rw [← List.drop_drop, hafterTag, List.drop_left' hbody]
  have hsize : nextTag p r.tag ≤ content.length := by
    unfold nextTag
    omega
  refine ⟨by rw [h, flvTagOfBytes_record], ?_, hsize, ?_⟩
  · rw [tagBody, hafterTag, List.take_left' hbody]
  · refine (swapUint32_ofLE_eq_iff (length_storedTagSize hsize) (flvTagSize_add_lt _)).mpr ?_
    rw [hafterBody, List.take_left' (length_toBE _ _)]

end

/-! ## The records that are left -/

section

variable [NumberImage N] {content : Bytes} {p : Nat} {tag : FlvTag} {before : Before}
  {first : Option Nat}

/-- From `p` on there are valid records only, behind what is remembered of the tags before. -/
structure ValidRest (N : Type) [NumberImage N] (content : Bytes) (p : Nat) (before : Before)
    (first : Option Nat) (records : List Record) : Prop where
  bytes : content.drop p = records.flatMap Record.bytes
  tags : ∀ r ∈ records, ValidTag r.tag r.body
  timestamps : before.AllowsAll (records.map fun r => r.tag)
  data : first = none → ∀ q ∈ firstOnMetadata N content ((locate p records).map Prod.fst),
    amfDataGetType (keptData N content q) = AmfType.associativeArray.code

theorem validRest_nil (hend : content.length ≤ p) : ValidRest N content p before first [] where
  bytes := List.drop_eq_nil_iff.mpr hend
  tags _ h := by cases h
  timestamps := trivial
  data _ q h := by cases h

theorem firstOnMetadata_cons (p : Nat) (offsets : List Nat) :
    firstOnMetadata N content (p :: offsets) =
      if EventNamed N content "onMetaData" p then some p
      else firstOnMetadata N content offsets := by
  unfold firstOnMetadata
  by_cases h : EventNamed N content "onMetaData" p
  · rw [if_pos h]
    exact List.find?_cons_of_pos (decide_eq_true h)
  · rw [if_neg h]
    exact List.find?_cons_of_neg (by simpa using h)

theorem forall_firstOnMetadata_cons {offsets : List Nat} {P : Nat → Prop} :
    (first = none → ∀ q ∈ firstOnMetadata N content (p :: offsets), P q) ↔
      (first = none → EventNamed N content "onMetaData" p → P p) ∧
        (first.or (if EventNamed N content "onMetaData" p then some p else none) = none →
          ∀ q ∈ firstOnMetadata N content offsets, P q) := by
  rw [firstOnMetadata_cons]
  by_cases h : EventNamed N content "onMetaData" p
  · simp [h]
  · simp [h]

/-- A rest is the record at its start and the rest behind it. -/
theorem exists_validRest_iff (htag : tag = flvTagOfBytes (content.drop p))
    (hlt : p < content.length) :
    (∃ records, ValidRest N content p before first records) ↔
      ValidAt N content before first p tag ∧
      ∃ records, ValidRest N content (nextTag p tag) (before.next tag)
        (first.or (if EventNamed N content "onMetaData" p then some p else none)) records := by
  constructor
  · rintro ⟨records, hbytes, htags, htimes, hdata⟩
    cases records with
    | nil => exact absurd (List.drop_eq_nil_iff.mp hbytes) (by omega)
    | cons r records =>
      rw [List.flatMap_cons] at hbytes
      obtain ⟨htag', hbody, hsize, hstored⟩ := record_of_drop hbytes
      obtain rfl : tag = r.tag := htag.trans htag'
      have hvalid := htags r List.mem_cons_self
      rw [← hbody] at hvalid
      rw [locate, List.map_cons, forall_firstOnMetadata_cons] at hdata
      exact ⟨⟨hvalid, htimes.1, hdata.1, hsize, hstored⟩, records, drop_nextTag hbytes,
        fun r' hr' => htags r' (List.mem_cons_of_mem _ hr'), htimes.2, hdata.2⟩
  · rintro ⟨⟨hvalid, hallows, hfits, hsize, hstored⟩, records, hbytes, htags, htimes, hdata⟩
    have hcomplete : Complete content p tag := by
      unfold nextTag at hsize
      unfold Complete
      omega
    refine ⟨recordAt content p tag hcomplete :: records, ?_, ?_, ⟨hallows, htimes⟩, ?_⟩
    · rw [List.flatMap_cons, ← hbytes]
      exact drop_recordAt htag hcomplete hsize hstored
    · exact List.forall_mem_cons.mpr ⟨hvalid, htags⟩
    · rw [locate, List.map_cons, forall_firstOnMetadata_cons]
      exact ⟨hfits, hdata⟩

/-- The scripts of the file that are there in full hold a name and a value. -/
def ReadableScripts (content : Bytes) (p : Nat) : Prop :=
  ∀ x ∈ tagsFrom content p, Complete content x.1 x.2 → x.2.type = flvTagTypeMeta →
    flvTagGetBodyLength x.2 ≠ 0 → ScriptBody (tagBody content x.1 x.2)

/-- Valid records are plain tags if the scripts hold a name and a value. -/
theorem plainFile_of_validRest {records : List Record}
    (h : ValidRest N content 13 .start none records)
    (hscripts : ReadableScripts content 13) : PlainFile content := by
  intro x hx
  have hscript := hscripts x hx
  rw [tagsFrom_records h.bytes] at hx
  obtain ⟨y, hy, rfl⟩ := List.mem_map.mp hx
  obtain ⟨rest, hdrop⟩ := drop_locate h.bytes y hy
  obtain ⟨-, -, hsize, -⟩ := record_of_drop hdrop
  have hcomplete : Complete content y.1 y.2.tag := by
    unfold nextTag at hsize
    unfold Complete
    omega
  exact ⟨hcomplete, (h.tags _ (mem_of_mem_locate hy)).known, hscript hcomplete⟩

/-! ## The data that is kept -/

omit [NumberImage N] in
theorem namesAreStrings_clone {M : Type} (f : M → N) {nameOk : Bytes → Prop}
    {list : List (AmfData M)} (h : WellFormedPairs nameOk list) :
    namesAreStrings (amfListClone (mapNumbersList f list)) = true := by
  induction list using namesAreStrings.induct with
  | case1 => rfl
  | case2 name => exact absurd h (by simp [WellFormedPairs])
  | case3 name data rest ih =>
    obtain ⟨⟨s, rfl, -⟩, -, hrest⟩ := h
    exact ih hrest

omit [NumberImage N] in
/-- The names of a well-formed associative array are strings, and stay strings in its copy. -/
theorem walkable_clone {M : Type} (f : M → N) {data : AmfData M} (h : WellFormed data)
    (htype : amfDataGetType data = AmfType.associativeArray.code) :
    walkable (amfDataClone (data.mapNumbers f)) = true := by
  cases data with
  | associativeArray list => exact namesAreStrings_clone f h
  | other type => exact absurd h (by simp [WellFormed])
  | _ => cases htype

/-- The loop over a readable `onMetaData` is defined if it is an associative array. -/
theorem walkable_keptData (htag : tag = flvTagOfBytes (content.drop p))
    (hcomplete : Complete content p tag) (hbody : ScriptBody (tagBody content p tag))
    (htype : amfDataGetType (keptData N content p) = AmfType.associativeArray.code) :
    walkable (keptData N content p) = true := by
  obtain ⟨name, data, extra, hwf, hbytes⟩ := hbody
  have hname : WellFormed (.string name : AmfData UInt64) := trivial
  obtain ⟨stream, hread, -⟩ := flvReadMetadata_images (N := N) htag hcomplete hname hwf hbytes
  have hkept : keptData N content p = amfDataClone (data.mapNumbers reload) := by
    rw [keptData, hread]
  rw [hkept] at htype ⊢
  refine walkable_clone reload hwf ?_
  cases data <;> first | rfl | cases htype

/-! ## The loop -/

/-- A turn that is not the last one leaves the stream in front of the next tag, and one that meets
no error is not the last one. -/
theorem checkTurn_judges (header : FlvHeader) (htag : tag = flvTagOfBytes (content.drop p))
    (hscript : Complete content p tag → tag.type = flvTagTypeMeta →
      flvTagGetBodyLength tag ≠ 0 → ScriptBody (tagBody content p tag)) (st : CheckLocals N) :
    ∃ messages : List (CheckMessage N), ((∀ m ∈ messages, ¬ m.IsError) ↔
        ValidAt N content st.before st.found.onMetadata p tag) ∧
      ((∃ st' stream', st.Passes content p tag st' ∧ AtTags content (some (p, tag)) stream' ∧
        ∀ opts report, checkTurn opts header content.length tag (st, report)
          (tagStream content p) = (.next (st', report.sayAll opts messages), stream')) ∨
      ¬ ValidAt N content st.before st.found.onMetadata p tag ∧
        ∀ opts report, checkTurn opts header content.length tag (st, report)
          (tagStream content p) = (.stop (report.sayAll opts messages), tagStream content p)) := by
  obtain ⟨result, messages, hsaid, hpost, hjudged, hsome⟩ :=
    judges_checkTag header htag hscript st
  refine ⟨messages, hjudged, ?_⟩
  unfold checkTurn
  cases result with
  | none =>
    exact Or.inr ⟨fun h => Bool.false_ne_true (hsome h), fun opts report => by
      rw [hsaid opts report]⟩
  | some r =>
    obtain ⟨hpasses, hat⟩ := hpost r rfl
    exact Or.inl ⟨r.1, r.2, hpasses, hat, fun opts report => by rw [hsaid opts report]⟩

/-- The loop from `p` on ends without an error exactly if valid records are left, and is not stopped
without one. -/
structure LoopJudges (content : Bytes) (p : Nat) (st : CheckLocals N)
    (e : Loop.End (CheckLocals N) Unit) (messages : List (CheckMessage N)) : Prop where
  valid : ((∀ m ∈ messages, ¬ m.IsError) ∧ ∃ st', e = .finished st') ↔
    ∃ records, ValidRest N content p st.before st.found.onMetadata records
  stopped : e = .stopped () → ¬ ∀ m ∈ messages, ¬ m.IsError

theorem checkLoop_judges (header : FlvHeader) {fuel : Nat} {last : Option (Nat × FlvTag)}
    {stream : FlvStream} (st : CheckLocals N) (hat : AtTags content last stream)
    (hle : nextOffset last ≤ content.length) (hfuel : content.length < fuel + nextOffset last)
    (hscripts : ReadableScripts content (nextOffset last)) :
    ∃ e stream' messages, LoopJudges content (nextOffset last) st e messages ∧
      ∀ opts report, checkLoop opts header content.length fuel (st, report) stream =
        some (endWith (report.sayAll opts messages) e, stream') := by
  induction fuel generalizing last st stream with
  | zero => omega
  | succ fuel ih =>
    have hoffset := hat.offset
    unfold checkLoop at ih ⊢
    rcases Nat.eq_or_lt_of_le hle with hend | hlt
    · have hstops : ¬ flvGetOffset stream < content.length := by omega
      refine ⟨.finished st, stream, [], ⟨?_, fun h => by cases h⟩, fun opts report => ?_⟩
      · exact iff_of_true ⟨List.forall_mem_nil _, st, rfl⟩ ⟨[], validRest_nil (by omega)⟩
      · simp only [Loop.loop, hstops, decide_false]
        rfl
    have hgoes : flvGetOffset stream < content.length := by omega
    by_cases hheader : nextOffset last + 11 ≤ content.length
    · have hfetch : fetchTag stream =
          (some (flvTagOfBytes (content.drop (nextOffset last))),
            tagStream content (nextOffset last)) := by
        rw [fetchTag, hat.tracks.flvReadTag hheader]
      have hoffsets := tagsFrom_of_le hheader
      generalize htag : flvTagOfBytes (content.drop (nextOffset last)) = tag at hfetch hoffsets
      have hfirst : (nextOffset last, tag) ∈ tagsFrom content (nextOffset last) := by
        rw [hoffsets]
        exact List.mem_cons_self
      obtain ⟨messages, hjudged, hturn⟩ :=
        checkTurn_judges header htag.symm (hscripts _ hfirst) st
      rcases hturn with ⟨st', stream', hpasses, hat', hnext⟩ | ⟨hno, hstop⟩
      · by_cases hvalid : ValidAt N content st.before st.found.onMetadata (nextOffset last) tag
        · have hnextOffset : nextOffset (some (nextOffset last, tag)) =
              nextTag (nextOffset last) tag := rfl
          have hbehind := hvalid.length
          have hfar : nextOffset last + 15 ≤ nextTag (nextOffset last) tag := by
            unfold nextTag
            omega
          have hscripts' : ReadableScripts content (nextTag (nextOffset last) tag) :=
            fun x hx => hscripts x (by rw [hoffsets]; exact List.mem_cons_of_mem _ hx)
          obtain ⟨e, stream'', messages', hrest, hloop⟩ := ih st' hat' hbehind
            (by rw [hnextOffset]; omega) hscripts'
          refine ⟨e, stream'', messages ++ messages', ⟨?_, ?_⟩, fun opts report => ?_⟩
          · rw [exists_validRest_iff htag.symm hlt, List.forall_mem_append, and_assoc,
              hrest.valid, hjudged, hpasses.before, hpasses.first, hnextOffset]
          · exact fun he hquiet => hrest.stopped he fun m hm =>
              hquiet m (List.mem_append_right _ hm)
          · simp only [Loop.loop, hgoes, hfetch, hnext opts report, decide_true, if_true,
              Report.sayAll_append]
            exact hloop opts _
        · -- what follows the error does not matter
          obtain ⟨e, stream'', offsets, messages', -, -, hloop⟩ := checkLoop_run header
            content.length (p := nextOffset last + 1) st' (hat'.tracks.beyond (by omega))
            (by omega) (show content.length < fuel + (nextOffset last + 1) by omega)
          have herror : ¬ ∀ m ∈ messages ++ messages', ¬ m.IsError := fun h =>
            hvalid (hjudged.mp fun m hm => h m (List.mem_append_left _ hm))
          refine ⟨e, stream'', messages ++ messages', ⟨?_, fun _ => herror⟩,
            fun opts report => ?_⟩
          · rw [exists_validRest_iff htag.symm hlt]
            exact iff_of_false (fun h => herror h.1) fun h => hvalid h.1
          · simp only [Loop.loop, hgoes, hfetch, hnext opts report, decide_true, if_true,
              Report.sayAll_append]
            exact (hloop opts _).1
      · refine ⟨.stopped (), tagStream content (nextOffset last), messages,
          ⟨?_, fun _ h => hno (hjudged.mp h)⟩, fun opts report => ?_⟩
        · rw [exists_validRest_iff htag.symm hlt]
          refine iff_of_false (fun h => ?_) fun h => hno h.1
          obtain ⟨-, st', hst⟩ := h
          cases hst
        · simp only [Loop.loop, hgoes, hfetch, hstop opts report, decide_true, if_true]
          rfl
    · obtain ⟨stream₁, hread, -⟩ := flvReadTag_of_aimed_lt hat.tracks.aimed (by omega)
      have hfetch : fetchTag stream = (none, stream₁) := by rw [fetchTag, hread]
      refine ⟨.noItem st, stream₁, [], ⟨?_, fun h => by cases h⟩, fun opts report => ?_⟩
      · rw [exists_validRest_iff rfl hlt]
        refine iff_of_false (fun h => ?_) fun h => ?_
        · obtain ⟨-, st', hst⟩ := h
          cases hst
        · have hlength := h.1.length
          unfold nextTag at hlength
          omega
      · simp only [Loop.loop, hgoes, hfetch, decide_true, if_true]
        rfl

/-- The part of the check that ends with the loop. -/
theorem judges_checkTags (header : FlvHeader) {stream : FlvStream}
    (hat : AtTags content none stream) (hle : 13 ≤ content.length)
    (hscripts : ReadableScripts content 13) :
    Judges (checkTags header content.length stream)
      (∃ records, ValidRest N content 13 .start none records)
      fun r : CheckLocals N × FlvStream => r.2.flvin.content = content ∧
        r.1.KeepsData content ∧ (PlainFile content →
          r.1.found.onMetadata = firstOnMetadata N content (tagOffsets content)) := by
  obtain ⟨result, offsets, messages, hsaid, hlast, hend, -⟩ :=
    checkTags_run (N := N) header hat.tracks
  have hspeaks : Speaks (checkTags header content.length stream)
      fun r : CheckLocals N × FlvStream => r.2.flvin.content = content ∧
        r.1.KeepsData content ∧ (PlainFile content →
          r.1.found.onMetadata = firstOnMetadata N content (tagOffsets content)) := by
    refine ⟨result, messages, hsaid, fun r hr => ?_, hlast⟩
    obtain ⟨hcontent, hfound, hkeeps, hall⟩ := hend r hr
    refine ⟨hcontent, hkeeps, fun hplain => ?_⟩
    rw [hfound, onMetadata_eventsFound, hall hplain]
    rfl
  refine Judges.weaken (Judges.andSpeaks (Q := fun _ => True) ?_ hspeaks) fun r hr => hr.2
  have hcontent := hat.tracks.content_eq
  subst hcontent
  have hfuel : stream.flvin.content.length <
      stream.flvin.content.length + 1 + nextOffset (none : Option (Nat × FlvTag)) :=
    Nat.lt_add_right _ (Nat.lt_succ_self _)
  obtain ⟨e, stream', messages, hjudges, hloop⟩ := checkLoop_judges header
    (CheckLocals.init : CheckLocals N) hat hle hfuel hscripts
  have hrun : ∀ opts report,
      ((checkTags header stream.flvin.content.length stream).run opts).run.run report =
        checkTagsEnd opts (endWith (report.sayAll opts messages) e, stream') := fun opts report =>
    congrArg (checkTagsEnd opts) (Option.get_of_eq_some _ (hloop opts report))
  have hvalid := hjudges.valid
  cases e with
  | finished st =>
    have hiff := (and_iff_left ⟨st, rfl⟩).symm.trans hvalid
    exact ⟨some (st, stream'), messages, hrun, fun _ _ => trivial, hiff, fun _ => rfl⟩
  | noItem st =>
    have hno : ¬ ∃ records, ValidRest N stream.flvin.content 13 .start none records := by
      intro hrecords
      obtain ⟨-, st', hst⟩ := hvalid.mpr hrecords
      cases hst
    refine ⟨none, messages ++ [⟨.fatal, .fatalTagEof, flvGetOffset stream',
      [.text "unexpected end of file in tag"]⟩], fun opts report => ?_, fun _ _ => trivial,
      iff_of_false (fun h => ?_) hno, fun h => absurd h hno⟩
    · rw [hrun, Report.sayAll_append]
      exact Says.fatalEnd .fatalTagEof (flvGetOffset stream') _ opts _
    · exact h _ (List.mem_append_right _ List.mem_cons_self) (Or.inr rfl)
  | stopped u =>
    have hno : ¬ ∃ records, ValidRest N stream.flvin.content 13 .start none records := by
      intro hrecords
      obtain ⟨-, st', hst⟩ := hvalid.mpr hrecords
      cases hst
    exact ⟨none, messages, hrun, fun _ _ => trivial,
      iff_of_false (hjudges.stopped rfl) hno, fun h => absurd h hno⟩

end

/-! ## After the tags -/

theorem quiet_checkFinal (header : FlvHeader) (filesize : Nat) (st : CheckLocals N) :
    Quiet (checkFinal header filesize st) := by
  refine .seq (.seq (.warning ..) (.warning ..)) (.seq (.onlyIf (.ite (.printWarning ..)
    (.printWarning ..))) (.seq ?_ (.warning ..)))
  exact .seq (.warning ..) (.seq (.warning ..) (.warning ..))

theorem quiet_checkGlobal (filesize : Nat) (st : CheckLocals N) (info : FlvInfo N) :
    Quiet (checkGlobal filesize st info) := by
  refine .seq (.warning ..) (.seq (.onlyIf (.printInfo ..)) ?_)
  exact .seq (.onlyIf (.printInfo ..)) (.seq (.onlyIf (.printInfo ..)) (.onlyIf (.printInfo ..)))

theorem judges_checkSizeFound (offset : Nat) (info : FlvInfo N) (found : FoundSize) :
    Judges (checkSizeFound offset info found)
      (info.haveVideo = true → found.haveWidth = true ∧ found.haveHeight = true)
      fun _ => True := by
  refine (Judges.ite (fun _ => .bindSame (.error ..) fun _ _ => .error ..) fun _ =>
    .pure trivial).congr ?_
  simp

section

variable [Number64 N]

/-- The information about the file is there, and with a video the width and the height are in the
metadata, if it can be followed. -/
def SizesFound (content : Bytes) (onMetadata : AmfData N) : Prop :=
  ∃ info, checkedInfo N content = .ok info ∧ (walkable onMetadata = true →
    info.haveVideo = true → hasNumber "width" onMetadata.listData = true ∧
      hasNumber "height" onMetadata.listData = true)

theorem judges_checkMetadata (filesize : Nat) (st : CheckLocals N) {stream : FlvStream}
    {content : Bytes} (hcontent : stream.flvin.content = content) :
    Judges (checkMetadata filesize st stream) (SizesFound content st.onMetadata)
      fun _ => True := by
  have hinfo : (getFlvInfo checkInfoOptions (flvReset stream)).1 = checkedInfo N content := by
    rw [checkedInfo, ← hcontent, getFlvInfo_flvReset]
  unfold checkMetadata SizesFound
  rw [hinfo]
  cases checkedInfo N content with
  | error status =>
    refine ((Judges.fatalEnd ..).weaken fun _ h => h.elim).congr ?_
    simp
  | ok info =>
    refine (Judges.bind (d := walkable st.onMetadata = true → info.haveVideo = true →
      hasNumber "width" st.onMetadata.listData = true ∧
        hasNumber "height" st.onMetadata.listData = true) (judges_checkOnMetadataEntries _)
      (e := fun found => ∀ size, found = some size → info.haveVideo = true →
        size.haveWidth = true ∧ size.haveHeight = true)
      (fun found _ => ?_) fun found hfound _ => ?_).congr ?_
    · cases found with
      | none => exact (Judges.pure trivial).congr (by simp)
      | some size =>
        exact (Judges.bindSame (d := True) (judges_checkSizeFound ..) fun _ _ =>
          .pure trivial).congr (by simp)
    · rw [hfound]
      by_cases hwalk : walkable st.onMetadata = true
      · simp only [hwalk, if_true, Option.some.injEq, forall_eq', forall_const]
        refine forall_congr' fun hvideo => ?_
        simp [hvideo]
      · simp [hwalk]
    · simp

theorem judges_checkOnMetadataFound (filesize : Nat) (st : CheckLocals N) {stream : FlvStream}
    {content : Bytes} (hcontent : stream.flvin.content = content) :
    Judges (checkOnMetadataFound filesize st stream)
      (st.found.onMetadata ≠ none → SizesFound content st.onMetadata) fun _ => True := by
  rw [checkOnMetadataFound, Ne, CheckLocals.first_eq_none, not_not]
  by_cases hhave : st.haveOnMetadata = true
  · rw [if_neg (not_not.mpr hhave)]
    exact (judges_checkMetadata filesize st hcontent).congr ⟨fun h _ => h, fun h => h hhave⟩
  · rw [if_pos hhave]
    refine Judges.congr (c := True) ?_ (iff_of_true trivial fun h => absurd h hhave)
    exact (Quiet.printWarning ..).followedBy (.pure trivial)

/-- The whole check. -/
theorem judges_checkContent (info : FlvInfo N) {content : Bytes}
    (hscripts : ReadableScripts content 13) :
    Judges (checkContent info content) (ValidStart content ∧
      (∃ records, ValidRest N content 13 .start none records) ∧
      ∀ p ∈ firstOnMetadata N content (tagOffsets content),
        SizesFound content (keptData N content p)) fun _ => True := by
  have hrest : ∀ r : FlvHeader × FlvStream, AtTags content none r.2 ∧ 13 ≤ content.length →
      Judges (do
        let found ← (checkTags r.1 content.length r.2 : CheckM N (CheckLocals N × FlvStream))
        checkFinal r.1 content.length found.1
        let outcome ← checkOnMetadataFound content.length found.1 found.2
        pure (found.1, outcome))
      ((∃ records, ValidRest N content 13 .start none records) ∧
        ∀ p ∈ firstOnMetadata N content (tagOffsets content),
          SizesFound content (keptData N content p)) fun _ => True := by
    rintro ⟨header, stream⟩ ⟨hat, hle⟩
    refine Judges.bind (judges_checkTags header hat hle hscripts) (e := fun r =>
      r.1.found.onMetadata ≠ none → SizesFound content r.1.onMetadata) ?_ ?_
    · rintro ⟨st, stream'⟩ ⟨hcontent, -⟩
      refine (quiet_checkFinal ..).followedBy ?_
      refine (Judges.bindSame (d := True) (judges_checkOnMetadataFound _ st hcontent) fun _ _ =>
        .pure trivial).congr ?_
      rw [and_true]
    · rintro ⟨st, stream'⟩ ⟨-, hkeeps, hfound⟩ ⟨records, hrecords⟩
      have hfirst := hfound (plainFile_of_validRest hrecords hscripts)
      dsimp only at hkeeps hfirst ⊢
      rw [← hfirst]
      constructor
      · intro h p hp
        rw [← hkeeps p hp]
        exact h (by rw [hp]; exact Option.some_ne_none p)
      · intro h hne
        obtain ⟨p, hp⟩ := Option.ne_none_iff_exists'.mp hne
        rw [hkeeps p hp]
        exact h p hp
  have hbefore : Judges (checkBefore content) (ValidStart content ∧
      (∃ records, ValidRest N content 13 .start none records) ∧
      ∀ p ∈ firstOnMetadata N content (tagOffsets content),
        SizesFound content (keptData N content p)) fun _ => True :=
    .bindSame (judges_checkStart content) hrest
  refine (Judges.bindSame (d := True) hbefore fun r _ => ?_).congr (and_true _).to_iff
  obtain ⟨st, outcome⟩ := r
  refine Quiet.followedBy ?_ (.pure trivial)
  cases outcome with
  | missing => exact quiet_checkGlobal ..
  | filled filled => exact quiet_checkGlobal ..
  | undefined => exact .pure

end

/-! ## Valid files -/

theorem exists_mem_locate {records : List Record} {r : Record} (h : r ∈ records) (p : Nat) :
    ∃ q, (q, r) ∈ locate p records := by
  induction records generalizing p with
  | nil => cases h
  | cons r' records ih =>
    rcases List.mem_cons.mp h with rfl | h
    · exact ⟨p, List.mem_cons_self⟩
    · obtain ⟨q, hq⟩ := ih h (nextTag p r'.tag)
      exact ⟨q, List.mem_cons_of_mem _ hq⟩

/-- The header that is read from the image of a header. -/
theorem flvHeaderOfBytes_append (header : FlvHeader) (rest : Bytes) :
    flvHeaderOfBytes (header.bytes ++ rest) =
      { header with offset := ofLE (toLE 4 header.offset) } := rfl

theorem flvHeaderGetOffset_image (header : FlvHeader) :
    flvHeaderGetOffset { header with offset := ofLE (toLE 4 header.offset) } =
      flvHeaderGetOffset header := by
  have himage : toLE 4 (ofLE (toLE 4 header.offset)) = toLE 4 header.offset := by
    have h := toLE_ofLE (toLE 4 header.offset)
    rwa [length_toLE] at h
  rw [flvHeaderGetOffset, flvHeaderGetOffset, swapUint32, swapUint32, himage]

section

variable [Number64 N] {content : Bytes} {records : List Record}

/-- The records of a file are valid behind its start. -/
theorem validFile_iff_start :
    (∃ header, ValidFile N content header records) ↔ ValidStart content ∧
      ValidRest N content 13 .start none records ∧
      ∀ p ∈ firstOnMetadata N content ((locate 13 records).map Prod.fst),
        ValidSizes N content records p := by
  constructor
  · rintro ⟨header, hbytes, hsignature, hheader, hnonempty, htags, htimes, hdata, hsizes⟩
    have hread := flvHeaderOfBytes_append header (toBE 4 0 ++ records.flatMap Record.bytes)
    rw [← hbytes] at hread
    have hrest : content.drop 13 = records.flatMap Record.bytes := by
      rw [hbytes, ← List.append_assoc]
      exact List.drop_left' (by simp)
    refine ⟨⟨?_, by rw [hread]; exact hsignature, ?_, ?_⟩,
      ⟨hrest, htags, (validTimestamps_iff _).mp htimes, fun _ => hdata⟩, hsizes⟩
    · obtain ⟨r, records', rfl⟩ := List.exists_cons_of_ne_nil hnonempty
      have hlength := congrArg List.length hrest
      rw [List.length_drop, List.flatMap_cons, List.length_append, r.length_bytes] at hlength
      omega
    · rw [hread]
      exact ⟨hheader.version, hheader.streams, hheader.reservedFlags,
        (flvHeaderGetOffset_image header).trans hheader.offset⟩
    · rw [hbytes, List.drop_left' header.length_bytes]
      exact List.take_left' (length_toBE _ _)
  · rintro ⟨⟨hlength, hsignature, hheader, hprev⟩, ⟨hrest, htags, htimes, hdata⟩, hsizes⟩
    refine ⟨flvHeaderOfBytes content, ?_, hsignature, hheader, ?_, htags,
      (validTimestamps_iff _).mpr htimes, hdata rfl, hsizes⟩
    · rw [bytes_flvHeaderOfBytes (by omega), ← hprev, ← hrest]
      have hsplit : content.drop 13 = (content.drop 9).drop 4 := by rw [List.drop_drop]
      rw [hsplit, List.take_append_drop, List.take_append_drop]
    · rintro rfl
      have hnil : content.drop 13 = [] := hrest
      rw [List.drop_eq_nil_iff] at hnil
      omega

theorem exists_video_iff (hbytes : content.drop 13 = records.flatMap Record.bytes) :
    videosOf (tagsFrom content 13) ≠ [] ↔
      ∃ r ∈ records, r.tag.type = flvTagTypeVideo ∧ r.body ≠ [] := by
  have hempty : ∀ r : Record, flvTagGetBodyLength r.tag ≠ 0 ↔ r.body ≠ [] := fun r => by
    have hbody := r.length_body
    unfold Piece.Fits at hbody
    rw [← hbody, Ne, List.length_eq_zero_iff]
  rw [tagsFrom_records hbytes, videosOf, Ne, List.filter_eq_nil_iff, not_forall]
  constructor
  · rintro ⟨x, hx⟩
    rw [Classical.not_imp, not_not, decide_eq_true_iff] at hx
    obtain ⟨hmem, htype, hlen⟩ := hx
    obtain ⟨y, hy, rfl⟩ := List.mem_map.mp hmem
    exact ⟨y.2, mem_of_mem_locate hy, htype, (hempty _).mp hlen⟩
  · rintro ⟨r, hr, htype, hbody⟩
    obtain ⟨q, hq⟩ := exists_mem_locate hr 13
    refine ⟨(q, r.tag), ?_⟩
    rw [Classical.not_imp, not_not, decide_eq_true_iff]
    exact ⟨List.mem_map.mpr ⟨(q, r), hq, rfl⟩, htype, (hempty r).mpr hbody⟩

/-- The loop over the first `onMetaData` of valid records is defined. -/
theorem walkable_first (hrest : ValidRest N content 13 .start none records)
    (hscripts : ReadableScripts content 13) {p : Nat}
    (hp : p ∈ firstOnMetadata N content (tagOffsets content)) :
    walkable (keptData N content p) = true := by
  have hplain := plainFile_of_validRest hrest hscripts
  have hlocated : tagOffsets content = (locate 13 records).map Prod.fst := by
    rw [tagOffsets, tagsFrom_records hrest.bytes, List.map_map]
    rfl
  have htype := hrest.data rfl p (hlocated ▸ hp)
  obtain ⟨hlen, hmeta, -⟩ := of_decide_eq_true
    (List.find?_some (p := fun q => decide (EventNamed N content "onMetaData" q)) hp)
  obtain ⟨x, hx, rfl⟩ := List.mem_map.mp (List.mem_of_find?_eq_some hp)
  have htag := tag_of_mem_tagsFrom 13 x hx
  rw [← htag] at hlen hmeta
  have hcomplete := (hplain x hx).complete
  exact walkable_keptData htag hcomplete
    (hscripts x hx hcomplete hmeta (Nat.pos_iff_ne_zero.mp hlen)) htype

/-- What is gathered from a file of valid records is found if the sizes are valid. -/
theorem sizesFound_iff (hstart : ValidStart content)
    (hrest : ValidRest N content 13 .start none records) (hscripts : ReadableScripts content 13)
    {p : Nat} (hp : p ∈ firstOnMetadata N content (tagOffsets content)) :
    SizesFound content (keptData N content p) ↔ ValidSizes N content records p := by
  have hplain := plainFile_of_validRest hrest hscripts
  have hvideo := exists_video_iff hrest.bytes
  have hlength := hstart.length
  unfold SizesFound checkedInfo
  simp only [forall_prop_of_true (walkable_first hrest hscripts hp)]
  rcases getFlvInfo_videoSeen (checkInfoOptions : FlvmetaOpts N) content (by omega)
    hstart.signature hplain with ⟨heof, hno⟩ | ⟨info, hinfo, hreadable, hhave, -⟩
  · rw [heof]
    refine iff_of_false (fun h => ?_) fun h => hno h.readable
    obtain ⟨info, hinfo, -⟩ := h
    cases hinfo
  · rw [hinfo]
    rw [hvideo] at hhave
    constructor
    · rintro ⟨info', hsame, hfound⟩
      cases hsame
      exact ⟨hreadable, fun h => (hfound (hhave.mpr h)).1, fun h => (hfound (hhave.mpr h)).2⟩
    · intro h
      exact ⟨info, rfl, fun hvideo => ⟨h.width (hhave.mp hvideo), h.height (hhave.mp hvideo)⟩⟩

/-- On a file whose scripts hold a name and a value a check meets no error exactly if the file is
valid. -/
theorem metConditions_iff_validFile (info : FlvInfo N) (hscripts : ReadableScripts content 13) :
    (∀ m ∈ metConditions info content, ¬ m.IsError) ↔
      ∃ header records, ValidFile N content header records := by
  obtain ⟨result, messages, hsaid, -, hjudged, -⟩ := judges_checkContent info hscripts
  have hlocated : ∀ {records : List Record}, content.drop 13 = records.flatMap Record.bytes →
      tagOffsets content = (locate 13 records).map Prod.fst := fun hbytes => by
    rw [tagOffsets, tagsFrom_records hbytes, List.map_map]
    rfl
  rw [metConditions_of_run hsaid, hjudged]
  constructor
  · rintro ⟨hstart, ⟨records, hrest⟩, hsizes⟩
    obtain ⟨header, hvalid⟩ := validFile_iff_start.mpr ⟨hstart, hrest, fun p hp => by
      rw [← hlocated hrest.bytes] at hp
      exact (sizesFound_iff hstart hrest hscripts hp).mp (hsizes p hp)⟩
    exact ⟨header, records, hvalid⟩
  · rintro ⟨header, records, hvalid⟩
    obtain ⟨hstart, hrest, hsizes⟩ := validFile_iff_start.mp ⟨header, hvalid⟩
    refine ⟨hstart, ⟨records, hrest⟩, fun p hp => ?_⟩
    exact (sizesFound_iff hstart hrest hscripts hp).mpr (hsizes p (hlocated hrest.bytes ▸ hp))

/-- On a file of valid records the behaviour of the check is defined. -/
theorem walkDefined_of_valid (env : Environment) (opts : CheckOpts) (info : FlvInfo N)
    (hscripts : ReadableScripts content 13)
    (hrest : ValidRest N content 13 .start none records) : WalkDefined env opts info content := by
  have hplain := plainFile_of_validRest hrest hscripts
  obtain ⟨result, offsets, messages, hbefore, hlast, hresult, hkeys⟩ :=
    checkBefore_run (N := N) content
  have hkeys' : checkedTags N env opts content = offsets := hkeys env opts
  rw [WalkDefined, exists_fatal_iff hbefore hlast info, hkeys']
  cases result with
  | none => exact Or.inl rfl
  | some r =>
    rw [(hresult r rfl).2.2 hplain]
    exact Or.inr fun p hp => walkable_first hrest hscripts hp

/-- On a file whose scripts hold a name and a value a check meets no error exactly if the file is
valid. The status of a valid file is that of success with any options, and the other way round if
the options count all errors and their number does not overflow. -/
theorem checkFlvFile_accepts (hscripts : ReadableScripts content 13) (env : Environment)
    (opts : CheckOpts) (info : FlvInfo N) :
    ((∀ m ∈ metConditions info content, ¬ m.IsError) ↔
      ∃ header records, ValidFile N content header records) ∧
    ((∃ header records, ValidFile N content header records) →
      (checkFlvFile env opts info (some content)).map Prod.fst = some .ok) ∧
    (opts.checkLevel ≠ .fatal → (metConditions info content).countP (·.IsError) < 2 ^ 32 →
      (checkFlvFile env opts info (some content)).map Prod.fst = some .ok →
        ∃ header records, ValidFile N content header records) := by
  have hvalid := metConditions_iff_validFile info hscripts
  have hstatus := checkFlvFile_status_iff env opts info content
  refine ⟨hvalid, fun h => ?_, fun hlevel hfew hok => ?_⟩
  · have hnone : (metConditions info content).countP (Counted opts ·) = 0 :=
      List.countP_eq_zero.mpr fun m hm hcounted =>
        hvalid.mpr h m hm (of_decide_eq_true hcounted).1
    obtain ⟨header, records, hfile⟩ := h
    obtain ⟨-, hrest, -⟩ := validFile_iff_start.mp ⟨header, hfile⟩
    refine (hstatus .ok).mpr ⟨walkDefined_of_valid env opts info hscripts hrest, ?_⟩
    rw [hnone]
    rfl
  · refine hvalid.mp ?_
    obtain ⟨-, hcounted⟩ := (hstatus .ok).mp hok
    have hzero : 2 ^ 32 ∣ (metConditions info content).countP (Counted opts ·) := by
      rw [Nat.dvd_iff_mod_eq_zero]
      by_contra hne
      rw [if_pos (Nat.pos_of_ne_zero hne)] at hcounted
      cases hcounted
    have hshow : ErrorsShow opts (metConditions info content) := by
      rw [ErrorsShow, if_neg hlevel]
      intro hdvd m hm herror
      have hzero := Nat.eq_zero_of_dvd_of_lt hdvd hfew
      exact List.countP_eq_zero.mp hzero m hm (decide_eq_true herror)
    have hiff := (errorsShow_iff opts (countP_fatal_le info content)).mpr hshow
    intro m hm herror
    exact hiff.mpr ⟨m, hm, herror⟩ hzero

end

/-- A file of an `onMetaData` event and one audio tag. -/
def acceptedFile : Bytes :=
  [0x46, 0x4C, 0x56, 1, 4, 0, 0, 0, 9, 0, 0, 0, 0] ++
    [18, 0, 0, 21, 0, 0, 0, 0, 0, 0, 0, 2, 0, 10, 0x6F, 0x6E, 0x4D, 0x65, 0x74, 0x61, 0x44, 0x61,
      0x74, 0x61, 8, 0, 0, 0, 0, 0, 0, 9, 0, 0, 0, 32] ++
    [8, 0, 0, 1, 0, 0, 0, 0, 0, 0, 0, 0x2F, 0, 0, 0, 12]

theorem readableScripts_acceptedFile : ReadableScripts acceptedFile 13 := by
  have htags : tagsFrom acceptedFile 13 =
      [(13, ⟨18, ⟨0, 0, 21⟩, ⟨0, 0, 0⟩, 0, ⟨0, 0, 0⟩⟩),
        (49, ⟨8, ⟨0, 0, 1⟩, ⟨0, 0, 0⟩, 0, ⟨0, 0, 0⟩⟩)] := by
    rfl
  intro x hx _ htype _
  rw [htags, List.mem_cons, List.mem_singleton] at hx
  rcases hx with rfl | rfl
  · exact ⟨⟨[0x6F, 0x6E, 0x4D, 0x65, 0x74, 0x61, 0x44, 0x61, 0x74, 0x61], by decide⟩,
      .associativeArray [], [], by simp [WellFormed, WellFormedPairs], rfl⟩
  · cases htype

theorem checkFlvFile_accepts_onMetadata :
    letI := blankImage
    ∃ header records, ValidFile ℚ acceptedFile header records := by
  let := blankImage
  let info : FlvInfo ℚ := FlvInfo.init (flvHeaderOfBytes acceptedFile)
  have hfew : (metConditions info acceptedFile).countP (·.IsError) = 0 := by decide +kernel
  have hok : (checkFlvFile ⟨[], 0⟩ ⟨[], .warning, false, .raw⟩ info
      (some acceptedFile)).map Prod.fst = some .ok := by
    decide +kernel
  exact (checkFlvFile_accepts readableScripts_acceptedFile ⟨[], 0⟩ ⟨[], .warning, false, .raw⟩
    info).2.2 (by decide) (by rw [hfew]; decide) hok

end FlvMeta
