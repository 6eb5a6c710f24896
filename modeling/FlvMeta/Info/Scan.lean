import FlvMeta.Info.Step

/-!
# The whole first pass over a plain file

`Gathered` describes the information after the tags seen so far. It holds before the first tag and
every turn of the loop keeps it (`Gathered.turn`), so it holds of the result for the whole
timeline of the file (`getFlvInfo_plain`).
-/

namespace FlvMeta

variable {N : Type} [Number64 N]

/-- The turns of the loop over a list of tags. -/
inductive InfoSteps (opts : FlvmetaOpts N) (content : Bytes) :
    InfoState N → List TimedTag → InfoState N → Prop
  | nil (st) : InfoSteps opts content st [] st
  | cons {st st₁ st' t ts} : Turned opts content t st st₁ → InfoSteps opts content st₁ ts st' →
    InfoSteps opts content st (t :: ts) st'

theorem infoLoop_plain {opts : FlvmetaOpts N} {content : Bytes} {fuel : Nat}
    {last : Option (Nat × FlvTag)} {st st' : InfoState N} {stream stream' : FlvStream}
    (htracks : Tracks content last stream)
    (hplain : ∀ x ∈ tagsFrom content (nextOffset last), PlainTag content x.1 x.2)
    (h : infoLoop opts fuel st stream = some (.ok st', stream')) :
    InfoSteps opts content st (timeline st.clocks (tagsFrom content (nextOffset last))) st' := by
  induction fuel generalizing last st stream with
  | zero => cases h
  | succ fuel ih =>
    rw [infoLoop] at h
    by_cases hle : nextOffset last + 11 ≤ content.length
    · rw [htracks.flvReadTag hle] at h
      rw [tagsFrom_of_le hle] at hplain ⊢
      generalize htag : flvTagOfBytes (content.drop (nextOffset last)) = tag at h hplain ⊢
      dsimp only at h
      cases hturn : infoTag opts tag st (tagStream content (nextOffset last)) with
      | mk result stream₁ =>
        rw [hturn] at h
        cases result with
        | error status => cases h
        | ok st₁ =>
          obtain ⟨hstep, htracks'⟩ := infoTag_plain
            (t := ⟨nextOffset last, tag, (st.clocks.fix tag).1⟩) htag.symm
            (hplain _ List.mem_cons_self) hturn
          have hturned := hstep.turned rfl
          have hrest := ih htracks' (fun x hx => hplain x (List.mem_cons_of_mem _ hx)) h
          rw [hturned.clocks] at hrest
          exact .cons hturned hrest
    · obtain ⟨stream₁, hread, -⟩ := flvReadTag_of_aimed_lt htracks.aimed (by omega)
      rw [hread] at h
      cases h
      rw [tagsFrom_of_lt (by omega)]
      exact .nil _

/-- What holds before a pass and is kept by its turns holds after it. -/
theorem InfoSteps.invariant {opts : FlvmetaOpts N} {content : Bytes}
    {Inv : List TimedTag → InfoState N → Prop}
    (keep : ∀ xs t st st', Inv xs st → Turned opts content t st st' → Inv (xs ++ [t]) st')
    {xs ts : List TimedTag} {st st' : InfoState N} (h : InfoSteps opts content st ts st')
    (hinv : Inv xs st) : Inv (xs ++ ts) st' := by
  induction h generalizing xs with
  | nil st => rwa [List.append_nil]
  | cons hturn _ ih =>
    rw [List.append_cons]
    exact ih (keep _ _ _ _ hinv hturn)

/-- What the first pass has gathered when it has seen the tags `ts`. -/
structure Gathered (opts : FlvmetaOpts N) (content : Bytes) (header : FlvHeader)
    (ts : List TimedTag) (st : InfoState N) : Prop where
  header : st.info.header = header
  haveFirst : st.haveFirstTimestamp = true ↔ ∃ t ∈ ts, t.tag.type ≠ flvTagTypeMeta
  first : st.info.firstTimestamp = firstTimestamp ts
  last : st.info.lastTimestamp = lastTime opts ts
  biggest : ∀ t ∈ ts, flvTagGetBodyLength t.tag ≤ st.info.biggestTagBodySize
  video : st.info.videoDataSize = sizeOfType flvTagTypeVideo (ts.map (·.tag))
  audio : st.info.audioDataSize = sizeOfType flvTagTypeAudio (ts.map (·.tag))
  script : st.info.metaDataSize + (st.info.onMetadataSize - 4) =
    sizeOfType flvTagTypeMeta (ts.map (·.tag))
  count : st.info.totalPrevTagsSize + (if st.info.onMetadataSize = 0 then 0 else 4) =
    4 + 4 * ts.length
  selected : st.info.onMetadataSize = 0 ∧ st.info.onMetadataOffset = 0 ∨
    ∃ t ∈ ts, t.tag.type = flvTagTypeMeta ∧ st.info.onMetadataOffset = t.offset ∧
      st.info.onMetadataSize = flvTagGetBodyLength t.tag + 15
  times : st.info.times = (indexed opts content (firstTimestamp ts) ts).map fun t =>
    seconds (relative opts (firstTimestamp ts) t.fixed)
  filepositions : st.info.filepositions =
    (indexed opts content (firstTimestamp ts) ts).map fun t => Number64.ofInt t.offset
  haveKeyframes : st.info.haveKeyframes = true ↔
    indexed opts content (firstTimestamp ts) ts ≠ []
  lastKeyframe : ∀ k ∈ (indexed opts content (firstTimestamp ts) ts).getLast?,
    st.info.lastKeyframeTimestamp = relative opts (firstTimestamp ts) k.fixed

theorem gathered_init (opts : FlvmetaOpts N) (content : Bytes) (header : FlvHeader) :
    Gathered opts content header [] (InfoState.init header) where
  header := rfl
  haveFirst := by simp [InfoState.init]
  first := rfl
  last := rfl
  biggest := by simp
  video := rfl
  audio := rfl
  script := rfl
  count := rfl
  selected := Or.inl ⟨rfl, rfl⟩
  times := rfl
  filepositions := rfl
  haveKeyframes := by simp [InfoState.init, FlvInfo.init, indexed]
  lastKeyframe := by simp [indexed]

omit [Number64 N] in
/-- The first timestamp after one more tag. -/
theorem firstTimestamp_concat {ts : List TimedTag} {st : InfoState N} {t : TimedTag}
    (hhave : st.haveFirstTimestamp = true ↔ ∃ t ∈ ts, t.tag.type ≠ flvTagTypeMeta)
    (hfirst : st.info.firstTimestamp = firstTimestamp ts) :
    firstTimestamp (ts ++ [t]) = firstAfter st t := by
  by_cases hmedia : ∃ t ∈ ts, t.tag.type ≠ flvTagTypeMeta
  · rw [firstTimestamp_append_of_media hmedia, firstAfter, if_neg (by simp [hhave.mpr hmedia]),
      hfirst]
  · have hscripts : ∀ t ∈ ts, t.tag.type = flvTagTypeMeta := fun t ht =>
      Classical.not_not.mp fun hne => hmedia ⟨t, ht, hne⟩
    have hnot : ¬ st.haveFirstTimestamp = true := fun h => hmedia (hhave.mp h)
    have hzero : firstTimestamp ts = 0 := by
      simpa [firstTimestamp] using firstTimestamp_append_of_scripts hscripts []
    rw [firstTimestamp_append_of_scripts hscripts, firstAfter, firstTimestamp, firstTimestamp,
      hfirst, hzero]
    simp [hnot]

omit [Number64 N] in
/-- Once a keyframe is indexed the first timestamp is known. -/
theorem firstTimestamp_of_indexed {opts : FlvmetaOpts N} {content : Bytes} {first : Nat}
    {ts : List TimedTag} (h : indexed opts content first ts ≠ []) (t : TimedTag) :
    firstTimestamp (ts ++ [t]) = firstTimestamp ts := by
  obtain ⟨k, hk⟩ := List.exists_mem_of_ne_nil _ h
  obtain ⟨hmem, hkey⟩ := mem_indexed hk
  refine firstTimestamp_append_of_media ⟨k, hmem, ?_⟩ [t]
  rw [hkey.1]
  decide

omit [Number64 N] in
/-- The index does not change when the first timestamp becomes known. -/
theorem indexed_concat_first (opts : FlvmetaOpts N) (content : Bytes) (ts : List TimedTag)
    (t : TimedTag) : indexed opts content (firstTimestamp (ts ++ [t])) ts =
      indexed opts content (firstTimestamp ts) ts := by
  by_cases hmedia : ∃ t ∈ ts, t.tag.type ≠ flvTagTypeMeta
  · rw [firstTimestamp_append_of_media hmedia]
  · have hscripts : ∀ t ∈ ts, t.tag.type = flvTagTypeMeta := fun t ht =>
      Classical.not_not.mp fun hne => hmedia ⟨t, ht, hne⟩
    rw [indexed_of_scripts _ _ _ hscripts, indexed_of_scripts _ _ _ hscripts]

/-- The index after one more tag. -/
theorem Gathered.indexed_concat {opts : FlvmetaOpts N} {content : Bytes} {header : FlvHeader}
    {ts : List TimedTag} {st : InfoState N} (h : Gathered opts content header ts st)
    (t : TimedTag) : indexed opts content (firstTimestamp (ts ++ [t])) (ts ++ [t]) =
      if IsKeyframe content t ∧
        Indexes opts (relative opts (firstTimestamp (ts ++ [t])) t.fixed) st.info then
        indexed opts content (firstTimestamp ts) ts ++ [t]
      else indexed opts content (firstTimestamp ts) ts := by
  rw [FlvMeta.indexed_concat, indexed_concat_first, indexKeyframe]
  refine if_congr (and_congr_right fun _ => ?_) rfl rfl
  unfold Indexes
  by_cases hnil : indexed opts content (firstTimestamp ts) ts = []
  · have hhave : ¬ st.info.haveKeyframes = true := fun hk => h.haveKeyframes.mp hk hnil
    simp [hnil, hhave]
  · have hhave := h.haveKeyframes.mpr hnil
    obtain ⟨k, hk⟩ : ∃ k, (indexed opts content (firstTimestamp ts) ts).getLast? = some k :=
      ⟨_, List.getLast?_eq_some_getLast hnil⟩
    have hlast := h.lastKeyframe k hk
    rw [firstTimestamp_of_indexed hnil]
    simp [hk, hhave, hlast]

theorem Gathered.turn {opts : FlvmetaOpts N} {content : Bytes} {header : FlvHeader}
    {ts : List TimedTag} {t : TimedTag} {st st' : InfoState N}
    (h : Gathered opts content header ts st) (hturn : Turned opts content t st st') :
    Gathered opts content header (ts ++ [t]) st' := by
  have hfirst := firstTimestamp_concat (t := t) h.haveFirst h.first
  have hindex := h.indexed_concat t
  have htimes : ∀ {α : Type} (f : Nat → α), (indexed opts content (firstTimestamp ts) ts).map
      (fun k => f (relative opts (firstTimestamp (ts ++ [t])) k.fixed)) =
        (indexed opts content (firstTimestamp ts) ts).map
          (fun k => f (relative opts (firstTimestamp ts) k.fixed)) := fun f => by
    by_cases hnil : indexed opts content (firstTimestamp ts) ts = []
    · simp [hnil]
    · rw [firstTimestamp_of_indexed hnil]
  have hkeys : st'.info.times =
        (indexed opts content (firstTimestamp (ts ++ [t])) (ts ++ [t])).map
          (fun k => seconds (relative opts (firstTimestamp (ts ++ [t])) k.fixed)) ∧
      st'.info.filepositions =
        (indexed opts content (firstTimestamp (ts ++ [t])) (ts ++ [t])).map
          (fun k => Number64.ofInt k.offset) ∧
      (st'.info.haveKeyframes = true ↔
        indexed opts content (firstTimestamp (ts ++ [t])) (ts ++ [t]) ≠ []) ∧
      ∀ k ∈ (indexed opts content (firstTimestamp (ts ++ [t])) (ts ++ [t])).getLast?,
        st'.info.lastKeyframeTimestamp =
          relative opts (firstTimestamp (ts ++ [t])) k.fixed := by
    rw [hindex]
    by_cases hkey : IsKeyframe content t ∧
        Indexes opts (relative opts (firstTimestamp (ts ++ [t])) t.fixed) st.info
    · obtain ⟨hk, hi⟩ := hkey
      rw [if_pos ⟨hk, hi⟩]
      rw [hfirst] at hi
      obtain ⟨hhave, hlast, htime, hpos⟩ := hturn.indexed hk hi
      refine ⟨?_, ?_, ?_, ?_⟩
      · rw [htime, h.times, List.map_append, htimes seconds, hfirst]
        rfl
      · rw [hpos, h.filepositions, List.map_append]
        rfl
      · simp [hhave]
      · rw [hlast, hfirst]
        simp
    · rw [if_neg hkey]
      rw [hfirst] at hkey
      obtain ⟨hhave, hlast, htime, hpos⟩ := hturn.skipped hkey
      refine ⟨?_, ?_, ?_, ?_⟩
      · rw [htime, h.times, htimes seconds]
      · rw [hpos, h.filepositions]
      · rw [hhave, h.haveKeyframes]
      · intro k hk
        have hnil : indexed opts content (firstTimestamp ts) ts ≠ [] := by
          intro hnil
          rw [hnil] at hk
          cases hk
        rw [hlast, h.lastKeyframe k hk, firstTimestamp_of_indexed hnil]
  obtain ⟨htime, hpos, hhave, hlast⟩ := hkeys
  exact {
    header := hturn.header.trans h.header
    haveFirst := by
      rw [hturn.haveFirst, Bool.or_eq_true, h.haveFirst]
      simp [or_and_right, exists_or]
    first := hturn.first.trans hfirst.symm
    last := by simp [hturn.last, lastTime, hfirst]
    biggest := by
      intro u hu
      rcases List.mem_append.mp hu with hu | hu
      · exact (h.biggest u hu).trans hturn.biggest.1
      · obtain rfl : u = t := by simpa using hu
        exact hturn.biggest.2
    video := by simp [hturn.video, h.video, sizeOfType]
    audio := by simp [hturn.audio, h.audio, sizeOfType]
    script := by
      have hold := h.script
      rcases hturn.script with ⟨htype, hzero, hsize, -, hmeta, -⟩ | ⟨hsize, -, hmeta, -⟩
      · rw [hzero] at hold
        simp only [List.map_append, List.map_cons, List.map_nil, sizeOfType_append, sizeOfType,
          htype, if_true, hsize, hmeta, flvTagSize]
        omega
      · simp only [List.map_append, List.map_cons, List.map_nil, sizeOfType_append, sizeOfType,
          hsize, hmeta]
        omega
    count := by
      have hold := h.count
      rcases hturn.script with ⟨-, hzero, hsize, -, -, hcount⟩ | ⟨hsize, -, -, hcount⟩
      · rw [if_pos hzero] at hold
        rw [hsize, hcount, if_neg (by omega), List.length_append, List.length_singleton]
        omega
      · rw [hsize, hcount, List.length_append, List.length_singleton]
        omega
    selected := by
      rcases hturn.script with ⟨htype, -, hsize, hoffset, -, -⟩ | ⟨hsize, hoffset, -, -⟩
      · exact Or.inr ⟨t, by simp, htype, hoffset, hsize⟩
      · rw [hsize, hoffset]
        rcases h.selected with hnone | ⟨u, hu, hselected⟩
        · exact Or.inl hnone
        · exact Or.inr ⟨u, List.mem_append_left _ hu, hselected⟩
    times := htime
    filepositions := hpos
    haveKeyframes := hhave
    lastKeyframe := hlast }

/-- What the first pass over a plain file has gathered when it succeeds. -/
theorem getFlvInfo_plain {opts : FlvmetaOpts N} {content : Bytes} {info : FlvInfo N}
    {stream : FlvStream} (hplain : PlainFile content)
    (h : getFlvInfo opts (flvOpen content) = (.ok info, stream)) :
    ∃ header st, st.info = info ∧ header.bytes = content.take 9 ∧ 9 ≤ content.length ∧
      Gathered opts content header (timedTags content) st := by
  obtain ⟨header, st, fuel, hbytes, hle, hinfo, hloop⟩ := getFlvInfo_ok h
  have hsteps := infoLoop_plain (tracks_header content) hplain hloop
  exact ⟨header, st, hinfo, hbytes, hle,
    hsteps.invariant (fun xs t st st' hinv hturn => hinv.turn hturn)
      (gathered_init opts content header)⟩

end FlvMeta
