import FlvMeta.Info.Scan

/-!
# The tags that the first pass reads

On any file, `infoVisits` is the list of the tags on which the loop of `getFlvInfo` takes a turn,
each with its offset, its fixed timestamp and the timestamp that is used for it. The loop is an
instance of the general one (`infoLoop_eq_loop`), so the offsets increase. The timestamps are those
of the timeline of the tags that are read (`infoVisits_times`), whatever their bodies hold.
-/

namespace FlvMeta

open Stdio

variable {N : Type} [Number64 N]

/-! ## The loop -/

/-- A turn of the loop of `get_flv_info`. -/
def infoTurn (opts : FlvmetaOpts N) (tag : FlvTag) (st : InfoState N) (stream : FlvStream) :
    Loop.Turn (InfoState N) Status × FlvStream :=
  match infoTag opts tag st stream with
  | (.error status, stream) => (.stop status, stream)
  | (.ok st, stream) => (.next st, stream)

/-- What the first pass makes of the end of its loop. -/
def infoEnd : Loop.End (InfoState N) Status × FlvStream → Except Status (InfoState N) × FlvStream
  | (.finished st, stream) => (.ok st, stream)
  | (.noItem st, stream) => (.ok st, stream)
  | (.stopped status, stream) => (.error status, stream)

theorem infoLoop_eq_loop (opts : FlvmetaOpts N) (fuel : Nat) (st : InfoState N)
    (stream : FlvStream) : infoLoop opts fuel st stream =
      (Loop.loop (fun _ => true) fetchTag (infoTurn opts) fuel st stream).map infoEnd := by
  induction fuel generalizing st stream with
  | zero => rfl
  | succ fuel ih =>
    rw [infoLoop, Loop.loop, if_pos rfl, fetchTag]
    generalize flvReadTag stream = r
    obtain ⟨result, stream₁⟩ := r
    cases result with
    | error status => rfl
    | ok tag =>
      dsimp only
      rw [infoTurn]
      generalize infoTag opts tag st stream₁ = turn
      obtain ⟨result, stream₂⟩ := turn
      cases result with
      | error status => rfl
      | ok st₁ => exact ih st₁ stream₂

theorem turnsBeyond_infoTurn (opts : FlvmetaOpts N) (content : Bytes) :
    TurnsBeyond content (infoTurn opts) := by
  intro p st st' stream' hturn
  have hbeyond := infoTag_beyond opts st content p
  unfold infoTurn at hturn
  generalize infoTag opts (flvTagOfBytes (content.drop p)) st (tagStream content p) = r
    at hturn hbeyond
  obtain ⟨result, stream₁⟩ := r
  cases result with
  | error status => cases hturn
  | ok st₁ =>
    cases hturn
    exact hbeyond

/-- The turns of `get_flv_info` on a file. -/
def infoTurns (opts : FlvmetaOpts N) (content : Bytes) : List (FlvTag × InfoState N × FlvStream) :=
  match flvReadHeader (flvOpen content) with
  | (.error _, _) => []
  | (.ok header, stream) =>
    Loop.visits (fun _ => true) fetchTag (infoTurn opts) (content.length + 1)
      (InfoState.init header) stream

/-- The offsets of the tags that are read increase. -/
theorem infoTurns_offsets (opts : FlvmetaOpts N) (content : Bytes) :
    (Loop.keys flvGetCurrentTagOffset (infoTurns opts content)).Pairwise (· < ·) := by
  unfold infoTurns
  cases hheader : flvReadHeader (flvOpen content) with
  | mk result stream =>
    cases result with
    | error status => exact .nil
    | ok header =>
      obtain ⟨-, -, rfl⟩ := flvReadHeader_ok (atStart_flvOpen content) hheader
      exact Loop.pairwise_keys (advances_fetchTag (turnsBeyond_infoTurn opts content))
        ⟨rfl, fun _ => Nat.zero_le _⟩

/-- A tag that the first pass reads, with the timestamp it uses for it. -/
structure Visit extends TimedTag where
  used : Nat

def infoVisit (opts : FlvmetaOpts N) (turn : FlvTag × InfoState N × FlvStream) : Visit where
  offset := flvGetCurrentTagOffset turn.2.2
  tag := turn.1
  fixed := (turn.2.1.clocks.fix turn.1).1
  used := (infoTimestamp opts turn.1 turn.2.1).1

def infoVisits (opts : FlvmetaOpts N) (content : Bytes) : List Visit :=
  (infoTurns opts content).map (infoVisit opts)

/-! ## Invariants -/

/-- What holds before the first tag and is kept by every turn, on whatever file. -/
structure InfoInvariant (opts : FlvmetaOpts N) (content : Bytes)
    (Inv : List Visit → InfoState N → Prop) : Prop where
  init : ∀ header, Inv [] (InfoState.init header)
  step : ∀ {seen q st st'},
    InfoOutcome opts (flvTagOfBytes (content.drop q)) st (tagStream content q) st' → Inv seen st →
      Inv (seen ++ [infoVisit opts (flvTagOfBytes (content.drop q), st, tagStream content q)]) st'

section

variable {opts : FlvmetaOpts N} {content : Bytes} {Inv : List Visit → InfoState N → Prop}

theorem infoTurn_next {tag : FlvTag} {st st' : InfoState N} {stream stream' : FlvStream}
    (h : infoTurn opts tag st stream = (.next st', stream')) :
    infoTag opts tag st stream = (.ok st', stream') := by
  unfold infoTurn at h
  cases hturn : infoTag opts tag st stream with
  | mk result stream₁ =>
    rw [hturn] at h
    cases result with
    | error status => cases h
    | ok st₁ =>
      cases h
      rfl

theorem InfoInvariant.invariant (h : InfoInvariant opts content Inv) :
    Loop.Invariant fetchTag (infoTurn opts) (infoVisit opts)
      (fun stream => ∃ p, Beyond content p stream) Inv where
  step := by
    rintro seen tag st st' stream stream' stream'' ⟨p, hbeyond⟩ hfetch hturn hinv
    obtain ⟨q, -, -, rfl, rfl⟩ := fetchTag_some hbeyond hfetch
    exact ⟨h.step (infoTag_outcome (infoTurn_next hturn)) hinv,
      q + 1, turnsBeyond_infoTurn opts content q st st' stream'' hturn⟩

/-- It holds at the start of every turn. -/
theorem InfoInvariant.turns (h : InfoInvariant opts content Inv)
    {before after : List (FlvTag × InfoState N × FlvStream)}
    {turn : FlvTag × InfoState N × FlvStream}
    (hsplit : infoTurns opts content = before ++ turn :: after) :
    Inv (before.map (infoVisit opts)) turn.2.1 := by
  unfold infoTurns at hsplit
  cases hheader : flvReadHeader (flvOpen content) with
  | mk result stream =>
    rw [hheader] at hsplit
    cases result with
    | error status => simp at hsplit
    | ok header =>
      obtain ⟨-, -, rfl⟩ := flvReadHeader_ok (atStart_flvOpen content) hheader
      exact h.invariant.visits (h.init header) ⟨0, rfl, fun _ => Nat.zero_le _⟩ hsplit

/-- It holds of the result. -/
theorem InfoInvariant.result (h : InfoInvariant opts content Inv) {info : FlvInfo N}
    {stream : FlvStream} (hinfo : getFlvInfo opts (flvOpen content) = (.ok info, stream)) :
    ∃ st, st.info = info ∧ Inv (infoVisits opts content) st := by
  unfold getFlvInfo at hinfo
  unfold infoVisits infoTurns
  cases hheader : flvReadHeader (flvOpen content) with
  | mk result stream₁ =>
    rw [hheader] at hinfo
    cases result with
    | error status => cases hinfo
    | ok header =>
      obtain ⟨-, -, rfl⟩ := flvReadHeader_ok (atStart_flvOpen content) hheader
      dsimp only at hinfo ⊢
      split at hinfo
      · cases hinfo
      · rename_i st stream₂ hget
        cases hinfo
        have hloop := Option.eq_some_iff_get_eq.mpr ⟨_, hget⟩
        rw [infoLoop_eq_loop] at hloop
        obtain ⟨⟨e, stream₃⟩, hloop, hend⟩ := Option.map_eq_some_iff.mp hloop
        have he : e.state? = some st := by
          cases e with
          | finished st₁ =>
            cases hend
            rfl
          | noItem st₁ =>
            cases hend
            rfl
          | stopped status => cases hend
        have hinv := h.invariant.loop (h.init header) ⟨0, rfl, fun _ => Nat.zero_le _⟩ hloop he
        rw [List.nil_append] at hinv
        exact ⟨st, rfl, hinv⟩

end

/-! ## What a turn does to the times -/

/-- The clocks and the first timestamp are as before. -/
structure KeepsTimes (st st' : InfoState N) : Prop where
  clocks : st'.clocks = st.clocks
  haveFirst : st'.haveFirstTimestamp = st.haveFirstTimestamp
  first : st'.info.firstTimestamp = st.info.firstTimestamp

omit [Number64 N] in
theorem firstTimestamp_infoMetadataName (opts : FlvmetaOpts N) (offset bodyLength : Nat)
    (name data : AmfData N) (info : FlvInfo N) :
    (infoMetadataName opts offset bodyLength name data info).firstTimestamp =
      info.firstTimestamp := by
  rcases infoMetadataName_cases opts offset bodyLength name data info with ⟨_, -, h⟩ | ⟨_, h⟩
  · rw [h]
  · rw [h]

section

variable {opts : FlvmetaOpts N} {tag : FlvTag} {st st' : InfoState N} {stream : FlvStream}

/-- A turn does to the times what its first part does. -/
theorem InfoOutcome.keepsTimes (h : InfoOutcome opts tag st stream st') :
    KeepsTimes (infoTimestamp opts tag st).2 st' := by
  cases h with
  | emptyScript => exact ⟨rfl, rfl, firstTimestamp_infoMetadataName ..⟩
  | script => exact ⟨rfl, rfl, firstTimestamp_infoMetadataName ..⟩
  | emptyVideo => exact ⟨rfl, rfl, rfl⟩
  | @video vt stream' width height =>
    obtain ⟨_, _, _, _, _, _, _, hframe⟩ := afterVideo_frame opts (flvGetCurrentTagOffset stream)
      (flvTagGetBodyLength tag) (infoTimestamp opts tag st).1 vt width height
      (infoTimestamp opts tag st).2.info
    refine ⟨rfl, rfl, ?_⟩
    dsimp only
    rw [hframe]
    rcases infoKeyframe_cases opts (flvGetCurrentTagOffset stream) (infoTimestamp opts tag st).1 vt
      (infoTimestamp opts tag st).2.info with ⟨-, -, _, hkey⟩ | ⟨-, _, hkey⟩
    · rw [hkey]
    · rw [hkey]
  | emptyAudio => exact ⟨rfl, rfl, rfl⟩
  | @audio audioTag =>
    obtain ⟨_, _, _, _, _, _, _, _, hframe⟩ := afterAudio_frame (flvTagGetBodyLength tag)
      (infoTimestamp opts tag st).1 audioTag (infoTimestamp opts tag st).2.info
    refine ⟨rfl, rfl, ?_⟩
    dsimp only
    rw [hframe]
  | unknown => exact ⟨rfl, rfl, rfl⟩

omit [Number64 N] in
/-- The first part of a turn. -/
theorem infoTimestamp_times (opts : FlvmetaOpts N) {t : TimedTag}
    (hfixed : t.fixed = (st.clocks.fix t.tag).1) :
    (infoTimestamp opts t.tag st).1 = relative opts (firstAfter st t) t.fixed ∧
      (infoTimestamp opts t.tag st).2.clocks = (st.clocks.fix t.tag).2 ∧
      (infoTimestamp opts t.tag st).2.haveFirstTimestamp =
        (st.haveFirstTimestamp || decide (t.tag.type ≠ flvTagTypeMeta)) ∧
      (infoTimestamp opts t.tag st).2.info.firstTimestamp = firstAfter st t := by
  unfold infoTimestamp
  dsimp only
  rw [← hfixed]
  by_cases h : ¬ st.haveFirstTimestamp ∧ t.tag.type ≠ flvTagTypeMeta
  · simp only [firstAfter, if_pos h, relative]
    split <;> simp [h.1, h.2]
  · simp only [firstAfter, if_neg h, relative]
    have hb : (st.haveFirstTimestamp || decide (t.tag.type ≠ flvTagTypeMeta)) =
        st.haveFirstTimestamp := by
      cases hf : st.haveFirstTimestamp with
      | true => rfl
      | false =>
        rw [hf] at h
        simpa using h
    rw [hb]
    split <;> simp

end

/-! ## The times of a run -/

/-- The times of the first pass when it has read the tags `ts`. -/
structure InfoTimes (ts : List TimedTag) (st : InfoState N) : Prop where
  haveFirst : st.haveFirstTimestamp = true ↔ ∃ t ∈ ts, t.tag.type ≠ flvTagTypeMeta
  first : st.info.firstTimestamp = firstTimestamp ts

omit [Number64 N] in
theorem infoTimes_init (header : FlvHeader) : InfoTimes [] (InfoState.init header : InfoState N) :=
  ⟨by simp [InfoState.init], rfl⟩

theorem InfoTimes.turn {opts : FlvmetaOpts N} {ts : List TimedTag} {st st' : InfoState N}
    {t : TimedTag} {stream : FlvStream} (h : InfoTimes ts st)
    (hfixed : t.fixed = (st.clocks.fix t.tag).1)
    (houtcome : InfoOutcome opts t.tag st stream st') :
    InfoTimes (ts ++ [t]) st' ∧ st'.clocks = (st.clocks.fix t.tag).2 := by
  have hkeeps := houtcome.keepsTimes
  obtain ⟨-, hclocks, hhave, hfirst⟩ := infoTimestamp_times opts hfixed
  refine ⟨⟨?_, ?_⟩, hkeeps.clocks.trans hclocks⟩
  · rw [hkeeps.haveFirst, hhave, Bool.or_eq_true, h.haveFirst]
    simp [or_and_right, exists_or]
  · rw [hkeeps.first, hfirst, firstTimestamp_concat h.haveFirst h.first]

/-- The tags of a timeline with the timestamps used for them, behind the tags `seen`. -/
def usedTimes (opts : FlvmetaOpts N) (seen : List TimedTag) : List TimedTag → List Visit
  | [] => []
  | t :: ts =>
    ⟨t, relative opts (firstTimestamp (seen ++ [t])) t.fixed⟩ :: usedTimes opts (seen ++ [t]) ts

/-- The tags that the first pass reads, with their offsets. -/
def readTags (opts : FlvmetaOpts N) (content : Bytes) : List (Nat × FlvTag) :=
  (infoTurns opts content).map fun turn => (flvGetCurrentTagOffset turn.2.2, turn.1)

theorem visits_times {opts : FlvmetaOpts N} {fuel : Nat} {seen : List TimedTag} {st : InfoState N}
    {stream : FlvStream} (h : InfoTimes seen st) :
    (Loop.visits (fun _ => true) fetchTag (infoTurn opts) fuel st stream).map (infoVisit opts) =
      usedTimes opts seen (timeline st.clocks
        ((Loop.visits (fun _ => true) fetchTag (infoTurn opts) fuel st stream).map fun turn =>
          (flvGetCurrentTagOffset turn.2.2, turn.1))) := by
  induction fuel generalizing seen st stream with
  | zero => rfl
  | succ fuel ih =>
    rw [Loop.visits, if_pos rfl]
    cases fetchTag stream with
    | mk item stream₁ =>
      cases item with
      | none => rfl
      | some tag =>
        dsimp only
        generalize ht : (⟨flvGetCurrentTagOffset stream₁, tag, (st.clocks.fix tag).1⟩ : TimedTag) =
          t
        have htag : t.tag = tag := by rw [← ht]
        have hfixed : t.fixed = (st.clocks.fix t.tag).1 := by rw [← ht]
        have hused : infoVisit opts (tag, st, stream₁) =
            ⟨t, relative opts (firstTimestamp (seen ++ [t])) t.fixed⟩ := by
          have hone := (infoTimestamp_times opts hfixed).1
          rw [firstTimestamp_concat h.haveFirst h.first, ← hone, htag, ← ht]
          rfl
        cases hturn : infoTag opts tag st stream₁ with
        | mk result stream₂ =>
          cases result with
          | error status =>
            rw [infoTurn, hturn]
            simp only [List.map_cons, List.map_nil, timeline, usedTimes, hused, ht]
          | ok st₁ =>
            rw [← htag] at hturn
            obtain ⟨htimes, hclocks⟩ := h.turn hfixed (infoTag_outcome hturn)
            rw [htag] at hturn
            rw [infoTurn, hturn]
            have hrest := @ih _ _ stream₂ htimes
            rw [hclocks, htag] at hrest
            simp only [List.map_cons, timeline, usedTimes, hused, ht, hrest]

/-- The timestamps of the first pass are those of the timeline of the tags that it reads. -/
theorem infoVisits_times (opts : FlvmetaOpts N) (content : Bytes) :
    infoVisits opts content =
      usedTimes opts [] (timeline Clocks.init (readTags opts content)) := by
  unfold infoVisits readTags infoTurns
  cases flvReadHeader (flvOpen content) with
  | mk result stream =>
    cases result with
    | error status => rfl
    | ok header => exact visits_times (infoTimes_init header)

omit [Number64 N] in
theorem map_usedTimes (opts : FlvmetaOpts N) (seen ts : List TimedTag) :
    (usedTimes opts seen ts).map Visit.toTimedTag = ts := by
  induction ts generalizing seen with
  | nil => rfl
  | cons t ts ih => rw [usedTimes, List.map_cons, ih]

/-- The times of a run are those of the tags seen so far. -/
theorem infoInvariant_times (opts : FlvmetaOpts N) (content : Bytes) :
    InfoInvariant opts content fun vs st => InfoTimes (vs.map Visit.toTimedTag) st where
  init := infoTimes_init
  step := by
    intro seen q st st' houtcome htimes
    have hturn := htimes.turn (t := (infoVisit opts
      (flvTagOfBytes (content.drop q), st, tagStream content q)).toTimedTag) rfl houtcome
    rw [List.map_append]
    exact hturn.1

/-- The first timestamp is that of the tags that were read. -/
theorem firstTimestamp_getFlvInfo {opts : FlvmetaOpts N} {content : Bytes} {info : FlvInfo N}
    {stream : FlvStream} (h : getFlvInfo opts (flvOpen content) = (.ok info, stream)) :
    info.firstTimestamp = firstTimestamp (timeline Clocks.init (readTags opts content)) := by
  obtain ⟨st, rfl, htimes⟩ := (infoInvariant_times opts content).result h
  rw [infoVisits_times, map_usedTimes] at htimes
  exact htimes.first

/-! ## Files with aligned script tags -/

/-- From a stream aimed at a tag on, the tags that are read are those of the file, up to an
error. -/
theorem visits_aligned (opts : FlvmetaOpts N) {content : Bytes} (fuel : Nat) {p : Nat}
    (st : InfoState N) {stream : FlvStream} (haimed : Aimed content p stream)
    (hscripts : AlignedScripts N content p) :
    letI keys := (Loop.visits (fun _ => true) fetchTag (infoTurn opts) fuel st stream).map
      fun turn => (flvGetCurrentTagOffset turn.2.2, turn.1)
    keys <+: tagsFrom content p ∧
      ∀ st' stream', infoLoop opts fuel st stream = some (.ok st', stream') →
        keys = tagsFrom content p := by
  induction fuel generalizing p st stream with
  | zero => exact ⟨List.nil_prefix, fun _ _ h => by cases h⟩
  | succ fuel ih =>
    rw [infoLoop, Loop.visits, if_pos rfl, fetchTag]
    by_cases hle : p + 11 ≤ content.length
    · rw [flvReadTag_of_aimed haimed hle]
      unfold AlignedScripts at hscripts
      rw [tagsFrom_of_le hle] at hscripts ⊢
      generalize htag : flvTagOfBytes (content.drop p) = tag at hscripts ⊢
      obtain ⟨hfirst, hrest⟩ := List.forall_mem_cons.mp hscripts
      dsimp only
      cases hturn : infoTag opts tag st (tagStream content p) with
      | mk result stream₁ =>
        rw [infoTurn, hturn]
        cases result with
        | error status =>
          refine ⟨?_, fun _ _ h => by cases h⟩
          exact List.prefix_cons_inj _ |>.mpr List.nil_prefix
        | ok st₁ =>
          obtain ⟨hbegin, hall⟩ :=
            ih st₁ (infoTag_aimed htag.symm hfirst hturn) hrest
          exact ⟨List.prefix_cons_inj _ |>.mpr hbegin, fun st' stream' h =>
            congrArg _ (hall st' stream' h)⟩
    · obtain ⟨stream₁, hread, -⟩ := flvReadTag_of_aimed_lt haimed (by omega)
      rw [hread, tagsFrom_of_lt (by omega)]
      exact ⟨List.nil_prefix, fun _ _ _ => rfl⟩

/-- The first pass reads the tags of a file with aligned script tags, up to an error. -/
theorem readTags_aligned (opts : FlvmetaOpts N) {content : Bytes}
    (hscripts : AlignedScripts N content 13) :
    readTags opts content <+: tagsFrom content 13 ∧
      ∀ info stream, getFlvInfo opts (flvOpen content) = (.ok info, stream) →
        readTags opts content = tagsFrom content 13 := by
  unfold getFlvInfo readTags infoTurns
  cases hheader : flvReadHeader (flvOpen content) with
  | mk result stream₁ =>
    cases result with
    | error status => exact ⟨List.nil_prefix, fun _ _ h => by cases h⟩
    | ok header =>
      obtain ⟨-, -, rfl⟩ := flvReadHeader_ok (atStart_flvOpen content) hheader
      have haimed : Aimed content 13
          { flvOpen content with flvin := ⟨content, 9, false⟩, state := .prevTagSize } :=
        (tracks_header content).aimed
      obtain ⟨hbegin, hall⟩ := visits_aligned opts (content.length + 1) (.init header) haimed
        hscripts
      refine ⟨hbegin, fun info stream h => ?_⟩
      dsimp only at h
      split at h
      · cases h
      · rename_i st stream₂ hloop
        exact hall st stream₂ ((Option.eq_some_iff_get_eq).mpr ⟨_, hloop⟩)

/-- On a plain file the first pass reads the tags of the file. -/
theorem readTags_plain {opts : FlvmetaOpts N} {content : Bytes} {info : FlvInfo N}
    {stream : FlvStream} (hplain : PlainFile content)
    (h : getFlvInfo opts (flvOpen content) = (.ok info, stream)) :
    readTags opts content = tagsFrom content 13 :=
  (readTags_aligned opts hplain.alignedScripts).2 info stream h

/-! ## Audio -/

section

variable {opts : FlvmetaOpts N} {content : Bytes} {tag : FlvTag} {st st' : InfoState N}
  {stream : FlvStream}

omit [Number64 N] in
theorem haveAudio_infoTimestamp (opts : FlvmetaOpts N) (tag : FlvTag) (st : InfoState N) :
    (infoTimestamp opts tag st).2.info.haveAudio = st.info.haveAudio := by
  unfold infoTimestamp
  dsimp only
  split
  · split
    · rfl
    · rfl
  · split
    · rfl
    · rfl

/-- Only a turn on an audio tag finds audio. -/
theorem InfoOutcome.haveAudio (h : InfoOutcome opts tag st stream st')
    (haudio : tag.type ≠ flvTagTypeAudio) : st'.info.haveAudio = st.info.haveAudio := by
  refine Eq.trans ?_ (haveAudio_infoTimestamp opts tag st)
  cases h with
  | emptyScript =>
    rcases infoMetadataName_cases opts (flvGetCurrentTagOffset stream) 0 .nullPtr .nullPtr
      (infoTimestamp opts tag st).2.info with ⟨_, -, hname⟩ | ⟨_, hname⟩
    · rw [hname]
    · rw [hname]
  | @script result =>
    rcases infoMetadataName_cases opts (flvGetCurrentTagOffset stream) (flvTagGetBodyLength tag)
      result.name result.data (infoTimestamp opts tag st).2.info with ⟨_, -, hname⟩ | ⟨_, hname⟩
    · rw [hname]
    · rw [hname]
  | emptyVideo => rfl
  | @video vt stream' width height =>
    obtain ⟨_, _, _, _, _, _, _, hframe⟩ := afterVideo_frame opts (flvGetCurrentTagOffset stream)
      (flvTagGetBodyLength tag) (infoTimestamp opts tag st).1 vt width height
      (infoTimestamp opts tag st).2.info
    dsimp only
    rw [hframe]
    rcases infoKeyframe_cases opts (flvGetCurrentTagOffset stream) (infoTimestamp opts tag st).1 vt
      (infoTimestamp opts tag st).2.info with ⟨-, -, _, hkey⟩ | ⟨-, _, hkey⟩
    · rw [hkey]
    · rw [hkey]
  | emptyAudio htype => exact absurd htype haudio
  | audio htype => exact absurd htype haudio
  | unknown => rfl

theorem infoInvariant_haveAudio (opts : FlvmetaOpts N) (content : Bytes) :
    InfoInvariant opts content fun seen st =>
      st.info.haveAudio = true → ∃ v ∈ seen, v.tag.type = flvTagTypeAudio where
  init _ h := by cases h
  step {seen q st st'} hturn hinv h := by
    by_cases haudio : (flvTagOfBytes (content.drop q)).type = flvTagTypeAudio
    · exact ⟨_, List.mem_append_right _ (List.mem_singleton_self _), haudio⟩
    · obtain ⟨v, hv, htype⟩ := hinv ((hturn.haveAudio haudio).symm.trans h)
      exact ⟨v, List.mem_append_left _ hv, htype⟩

/-- The first pass over a plain file finds no audio where there is none. -/
theorem haveAudio_plain {info : FlvInfo N} (hplain : PlainFile content)
    (h : getFlvInfo opts (flvOpen content) = (.ok info, stream))
    (hnone : ∀ x ∈ tagsFrom content 13, x.2.type ≠ flvTagTypeAudio) : info.haveAudio = false := by
  obtain ⟨st, rfl, hinv⟩ := (infoInvariant_haveAudio opts content).result h
  rw [← readTags_plain hplain h] at hnone
  rw [← Bool.not_eq_true]
  intro haudio
  obtain ⟨v, hv, htype⟩ := hinv haudio
  obtain ⟨turn, hturn, rfl⟩ := List.mem_map.mp hv
  exact hnone _ (List.mem_map_of_mem hturn) htype

end

end FlvMeta
