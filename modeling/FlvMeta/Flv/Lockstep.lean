import FlvMeta.Base.Lockstep
import FlvMeta.Flv.Parse

/-!
# Parsers in lockstep

Two parsers with user data of different types. If their callbacks return the same statuses and read
the stream alike, `flvParse` returns the same status and delivers the same events on every file,
whatever the callbacks do with their data (`Lockstep.flvParse`). A callback of the second parser may
also stop it where the first one goes on.
-/

namespace FlvMeta

open Stdio

variable {U U' N : Type}

/-! ## Callbacks -/

/-- The results of two calls: alike, or the second stops its parser and the first is ahead. -/
inductive CallRelated (R : U → U' → Prop) (Ahead : U → Int → U' → Prop) :
    Int × U × FlvStream → Int × U' × FlvStream → Prop
  | same (retval : Int) {u : U} {u' : U'} (stream : FlvStream) (h : R u u') :
    CallRelated R Ahead (retval, u, stream) (retval, u', stream)
  | stop {r : Int × U × FlvStream} {retval' : Int} {u' : U'} (stream' : FlvStream)
    (hretval : retval' ≠ 0) (h : Ahead r.2.1 retval' u') :
    CallRelated R Ahead r (retval', u', stream')

/-- The callbacks of two parsers keep their user data related. -/
structure FlvParser.Lockstep (parser : FlvParser U N) (parser' : FlvParser U' N)
    (R : U → U' → Prop) (Ahead : U → Int → U' → Prop) : Prop where
  handled : ∀ event, (parser.callback event).isSome = (parser'.callback event).isSome
  step : ∀ event f f', parser.callback event = some f → parser'.callback event = some f' →
    ∀ {u u'} stream, R u u' → CallRelated R Ahead (f u stream) (f' u' stream)
  ahead : ∀ event f, parser.callback event = some f → ∀ {u retval' u'} stream,
    Ahead u retval' u' → Ahead (f u stream).2.1 retval' u'

/-! ## States -/

section

variable (R : U → U' → Prop) (Ahead : U → Int → U' → Prop)

/-- The same events, and related user data. -/
def StateRelated (st : ParseState U N) (st' : ParseState U' N) : Prop :=
  st.events = st'.events ∧ R st.user st'.user

/-- The first parser is past the result of the second. -/
def StateAhead (st : ParseState U N) (r' : Int × ParseState U' N) : Prop :=
  r'.2.events <+: st.events ∧ Ahead st.user r'.1 r'.2.user

/-- Two results of `flvParse`. -/
def ResultRelated (r : Int × ParseState U N) (r' : Int × ParseState U' N) : Prop :=
  (r.1 = r'.1 ∧ StateRelated R r.2 r'.2) ∨ StateAhead Ahead r.2 r'

/-- Two steps of the parsers, with the streams that they leave. -/
inductive StepRelated : Int × ParseState U N × FlvStream → Int × ParseState U' N × FlvStream → Prop
  | same (retval : Int) {st : ParseState U N} {st' : ParseState U' N} (stream : FlvStream)
    (h : StateRelated R st st') : StepRelated (retval, st, stream) (retval, st', stream)
  | stop {r : Int × ParseState U N × FlvStream} {retval' : Int} {st' : ParseState U' N}
    (stream' : FlvStream) (hretval : retval' ≠ 0) (h : StateAhead Ahead r.2.1 (retval', st')) :
    StepRelated r (retval', st', stream')

end

/-! ## A step of one parser -/

section

variable (parser : FlvParser U N)

/-- The result of a call without the stream. -/
def resultOf (r : Int × ParseState U N × FlvStream) : Int × ParseState U N := (r.1, r.2.1)

/-- The result after the loop: that of the turn that stopped it, or of the call for the end. -/
def parseEnd : Loop.End (ParseState U N) (Int × ParseState U N) × FlvStream → Int × ParseState U N
  | (.stopped result, _) => result
  | (.finished st, stream) => resultOf (deliver parser .streamEnd st stream)
  | (.noItem st, stream) => resultOf (deliver parser .streamEnd st stream)

variable [NumberImage N]

/-- The run after the call for the header. -/
def parseFrom (fuel : Nat) (r : Int × ParseState U N × FlvStream) : Option (Int × ParseState U N) :=
  if r.1 ≠ 0 then some (resultOf r)
  else (Loop.loop (fun _ => true) fetchTag (parseTurn parser) fuel r.2.1 r.2.2).map
    (parseEnd parser)

variable {parser} {content : Bytes} {stream : FlvStream}

theorem flvParse_of_noHeader {status : FlvStatus}
    (h : flvReadHeader (flvOpen content) = (.error status, stream)) (user : U) :
    flvParse parser user (some content) = some (status.code, ⟨user, []⟩) := by
  unfold flvParse
  dsimp only
  rw [h]

theorem flvParse_of_header {header : FlvHeader}
    (h : flvReadHeader (flvOpen content) = (.ok header, stream)) (user : U) :
    flvParse parser user (some content) =
      parseFrom parser (content.length + 1)
        (deliver parser (.header header) ⟨user, []⟩ stream) := by
  unfold flvParse parseFrom
  dsimp only
  rw [h]
  dsimp only
  split
  · rfl
  · split
    · rename_i hloop
      rw [hloop]
      rfl
    all_goals
      rename_i hloop
      rw [hloop]
      rfl

end

section

variable {parser : FlvParser U N} {I : ParseState U N → Prop}

/-- What every call keeps, the body of a tag keeps. -/
theorem parseTagBody_keeps [NumberImage N]
    (h : ∀ event st stream, I st → I (deliver parser event st stream).2.1) (tag : FlvTag)
    {st : ParseState U N} (hst : I st) (stream : FlvStream) :
    I (parseTagBody parser tag st stream).2.1 := by
  unfold parseTagBody
  split
  · split
    · exact h _ _ _ hst
    · exact hst
  · split
    · split
      · exact h _ _ _ hst
      · exact hst
    · split
      · dsimp only
        split
        · exact hst
        · split
          · exact h _ _ _ hst
          · exact hst
      · exact h _ _ _ hst

theorem parsePrevTagSize_keeps
    (h : ∀ event st stream, I st → I (deliver parser event st stream).2.1)
    {st : ParseState U N} (hst : I st) (stream : FlvStream) :
    I (parsePrevTagSize parser st stream).2.1 := by
  unfold parsePrevTagSize
  split
  · exact hst
  · exact h _ _ _ hst

theorem unlessFailed_keeps {r : Int × ParseState U N × FlvStream}
    {next : ParseState U N → FlvStream → Int × ParseState U N × FlvStream} (hr : I r.2.1)
    (hnext : I r.2.1 → I (next r.2.1 r.2.2).2.1) : I (unlessFailed r next).2.1 := by
  unfold unlessFailed
  split
  · exact hr
  · exact hnext hr

theorem parseTag_keeps [NumberImage N]
    (h : ∀ event st stream, I st → I (deliver parser event st stream).2.1) (tag : FlvTag)
    {st : ParseState U N} (hst : I st) (stream : FlvStream) :
    I (parseTag parser tag st stream).2.1 :=
  unlessFailed_keeps (h _ _ _ hst) fun hst₁ =>
    unlessFailed_keeps (parseTagBody_keeps h tag hst₁ _) fun hst₂ =>
      parsePrevTagSize_keeps h hst₂ _

end

/-- A loop is stopped by a status that is not zero. -/
theorem parseTurn_stopped [NumberImage N] {parser : FlvParser U N} {tag : FlvTag}
    {st : ParseState U N} {stream stream' : FlvStream} {result : Int × ParseState U N}
    (h : parseTurn parser tag st stream = (.stop result, stream')) : result.1 ≠ 0 := by
  unfold parseTurn at h
  generalize parseTag parser tag st stream = r at h
  obtain ⟨retval, st₁, stream₁⟩ := r
  dsimp only at h
  split at h
  · rename_i hretval
    cases h
    exact hretval
  · cases h

/-! ## Steps in lockstep -/

namespace FlvParser.Lockstep

variable {parser : FlvParser U N} {parser' : FlvParser U' N} {R : U → U' → Prop}
  {Ahead : U → Int → U' → Prop}

theorem deliver (h : parser.Lockstep parser' R Ahead) (event : FlvEvent N)
    {st : ParseState U N} {st' : ParseState U' N} (stream : FlvStream)
    (hst : StateRelated R st st') :
    StepRelated R Ahead (deliver parser event st stream) (deliver parser' event st' stream) := by
  obtain ⟨hevents, hR⟩ := hst
  have hhandled := h.handled event
  unfold FlvMeta.deliver
  cases hcallback : parser.callback event with
  | none =>
    rw [hcallback] at hhandled
    rw [Option.isSome_eq_false_iff.mp hhandled.symm |> Option.isNone_iff_eq_none.mp]
    exact .same 0 stream ⟨hevents, hR⟩
  | some f =>
    rw [hcallback] at hhandled
    obtain ⟨f', hcallback'⟩ := Option.isSome_iff_exists.mp hhandled.symm
    rw [hcallback']
    dsimp only
    have hcall := h.step event f f' hcallback hcallback' stream hR
    generalize f st.user stream = r at hcall ⊢
    generalize f' st'.user stream = r' at hcall ⊢
    cases hcall with
    | same retval stream₁ hR₁ => exact .same retval stream₁ ⟨by rw [hevents], hR₁⟩
    | stop stream₁ hretval hahead =>
      exact .stop stream₁ hretval ⟨hevents ▸ List.prefix_refl _, hahead⟩

theorem deliver_ahead (h : parser.Lockstep parser' R Ahead) (event : FlvEvent N)
    {st : ParseState U N} {r' : Int × ParseState U' N} (stream : FlvStream)
    (hst : StateAhead Ahead st r') :
    StateAhead Ahead (FlvMeta.deliver parser event st stream).2.1 r' := by
  unfold FlvMeta.deliver
  cases hcallback : parser.callback event with
  | none => exact hst
  | some f =>
    exact ⟨hst.1.trans (List.prefix_append _ _), h.ahead event f hcallback stream hst.2⟩

theorem unlessFailed {r : Int × ParseState U N × FlvStream}
    {r' : Int × ParseState U' N × FlvStream}
    {next : ParseState U N → FlvStream → Int × ParseState U N × FlvStream}
    {next' : ParseState U' N → FlvStream → Int × ParseState U' N × FlvStream}
    (hr : StepRelated R Ahead r r')
    (hnext : ∀ {st st'} stream, StateRelated R st st' →
      StepRelated R Ahead (next st stream) (next' st' stream))
    (hahead : ∀ {st r'} stream, StateAhead Ahead st r' → StateAhead Ahead (next st stream).2.1 r') :
    StepRelated R Ahead (unlessFailed r next) (unlessFailed r' next') := by
  cases hr with
  | same retval stream hst =>
    unfold FlvMeta.unlessFailed
    dsimp only
    split
    · exact .same retval stream hst
    · exact hnext stream hst
  | stop stream hretval hst =>
    rw [FlvMeta.unlessFailed.eq_def (r := (_, _, stream)), if_pos hretval]
    exact .stop stream hretval (unlessFailed_keeps (I := fun st => StateAhead Ahead st _) hst
      (hahead _))

theorem parsePrevTagSize (h : parser.Lockstep parser' R Ahead) {st : ParseState U N}
    {st' : ParseState U' N} (stream : FlvStream) (hst : StateRelated R st st') :
    StepRelated R Ahead (parsePrevTagSize parser st stream)
      (parsePrevTagSize parser' st' stream) := by
  unfold FlvMeta.parsePrevTagSize
  generalize flvReadPrevTagSize stream = r
  obtain ⟨result, stream₁⟩ := r
  cases result with
  | error status => exact .same _ stream₁ hst
  | ok size => exact h.deliver _ stream₁ hst

variable [NumberImage N]

theorem parseTagBody (h : parser.Lockstep parser' R Ahead) (tag : FlvTag) {st : ParseState U N}
    {st' : ParseState U' N} (stream : FlvStream) (hst : StateRelated R st st') :
    StepRelated R Ahead (parseTagBody parser tag st stream)
      (parseTagBody parser' tag st' stream) := by
  unfold FlvMeta.parseTagBody
  by_cases haudio : tag.type = flvTagTypeAudio
  · rw [if_pos haudio, if_pos haudio]
    generalize flvReadAudioTag stream = r
    obtain ⟨result, stream₁⟩ := r
    cases result with
    | error status => exact .same _ stream₁ hst
    | ok at' => exact h.deliver _ stream₁ hst
  rw [if_neg haudio, if_neg haudio]
  by_cases hvideo : tag.type = flvTagTypeVideo
  · rw [if_pos hvideo, if_pos hvideo]
    generalize flvReadVideoTag stream = r
    obtain ⟨result, stream₁⟩ := r
    cases result with
    | error status => exact .same _ stream₁ hst
    | ok vt => exact h.deliver _ stream₁ hst
  rw [if_neg hvideo, if_neg hvideo]
  by_cases hscript : tag.type = flvTagTypeMeta
  · rw [if_pos hscript, if_pos hscript]
    generalize (flvReadMetadata stream : MetadataResult N × FlvStream) = r
    obtain ⟨result, stream₁⟩ := r
    dsimp only
    by_cases heof : result.status = .errorEof
    · rw [if_pos heof, if_pos heof]
      exact .same _ stream₁ hst
    rw [if_neg heof, if_neg heof]
    by_cases hok : result.status = .ok ∧ amfDataGetType result.name = AmfType.string.code
    · rw [if_pos hok, if_pos hok]
      exact h.deliver _ stream₁ hst
    · rw [if_neg hok, if_neg hok]
      exact .same _ stream₁ hst
  · rw [if_neg hscript, if_neg hscript]
    exact h.deliver _ stream hst

theorem parseTag (h : parser.Lockstep parser' R Ahead) (tag : FlvTag) {st : ParseState U N}
    {st' : ParseState U' N} (stream : FlvStream) (hst : StateRelated R st st') :
    StepRelated R Ahead (parseTag parser tag st stream) (parseTag parser' tag st' stream) := by
  have hkeeps : ∀ {r' : Int × ParseState U' N} event st stream, StateAhead Ahead st r' →
      StateAhead Ahead (FlvMeta.deliver parser event st stream).2.1 r' :=
    fun event _ stream hahead => h.deliver_ahead event stream hahead
  refine unlessFailed (h.deliver _ stream hst) (fun stream₁ hst₁ => ?_) fun stream₁ hahead => ?_
  · exact unlessFailed (h.parseTagBody tag stream₁ hst₁)
      (fun stream₂ hst₂ => h.parsePrevTagSize stream₂ hst₂) fun stream₂ hahead =>
        parsePrevTagSize_keeps (I := fun st => StateAhead Ahead st _) hkeeps hahead stream₂
  · exact unlessFailed_keeps (I := fun st => StateAhead Ahead st _)
      (parseTagBody_keeps (I := fun st => StateAhead Ahead st _) hkeeps tag hahead stream₁)
      fun hahead₁ =>
        parsePrevTagSize_keeps (I := fun st => StateAhead Ahead st _) hkeeps hahead₁ _

/-! ## Runs in lockstep -/

omit [NumberImage N] in
theorem parseEnd (h : parser.Lockstep parser' R Ahead)
    {e : Loop.End (ParseState U N) (Int × ParseState U N) × FlvStream}
    {e' : Loop.End (ParseState U' N) (Int × ParseState U' N) × FlvStream}
    (he : Loop.End.Related (StateRelated R) (StateAhead Ahead) (ResultRelated R Ahead) e e') :
    ResultRelated R Ahead (parseEnd parser e) (FlvMeta.parseEnd parser' e') := by
  have hend : ∀ {st st'} stream, StateRelated R st st' → ResultRelated R Ahead
      (resultOf (FlvMeta.deliver parser .streamEnd st stream))
      (resultOf (FlvMeta.deliver parser' .streamEnd st' stream)) := by
    intro st st' stream hst
    have hdeliver := h.deliver .streamEnd stream hst
    generalize FlvMeta.deliver parser .streamEnd st stream = r at hdeliver ⊢
    generalize FlvMeta.deliver parser' .streamEnd st' stream = r' at hdeliver ⊢
    cases hdeliver with
    | same retval stream₁ hst₁ => exact .inl ⟨rfl, hst₁⟩
    | stop stream₁ hretval hahead => exact .inr hahead
  cases he with
  | finished stream hst => exact hend stream hst
  | noItem stream hst => exact hend stream hst
  | stopped _ _ hr => exact hr
  | @ahead e st _ stream _ he hahead =>
    cases e with
    | finished st₁ =>
      cases he
      exact .inr (h.deliver_ahead .streamEnd stream hahead)
    | noItem st₁ =>
      cases he
      exact .inr (h.deliver_ahead .streamEnd stream hahead)
    | stopped r => cases he

/-- The loops of the parsers are in lockstep. -/
theorem parseTurn (h : parser.Lockstep parser' R Ahead) :
    Loop.Lockstep (parseTurn parser) (parseTurn parser') (StateRelated R) (StateAhead Ahead)
      (ResultRelated R Ahead) where
  step := by
    intro tag st st' stream hst
    have htag := h.parseTag tag stream hst
    unfold FlvMeta.parseTurn
    generalize FlvMeta.parseTag parser tag st stream = r at htag ⊢
    generalize FlvMeta.parseTag parser' tag st' stream = r' at htag ⊢
    cases htag with
    | same retval stream₁ hst₁ =>
      dsimp only
      split
      · exact .stop _ _ (.inl ⟨rfl, hst₁⟩)
      · exact .next _ hst₁
    | stop stream₁ hretval hahead =>
      dsimp only
      rw [if_pos hretval]
      split
      · exact .stop _ _ (.inr hahead)
      · exact .stop _ _ hahead
  ahead := by
    intro tag st r' stream hst
    have htag := parseTag_keeps (I := fun st => StateAhead Ahead st r')
      (fun event _ stream hahead => h.deliver_ahead event stream hahead) tag hst stream
    unfold FlvMeta.parseTurn
    generalize FlvMeta.parseTag parser tag st stream = r at htag ⊢
    obtain ⟨retval, st₁, stream₁⟩ := r
    dsimp only
    split
    · exact .inr htag
    · exact htag

theorem parseFrom (h : parser.Lockstep parser' R Ahead) {fuel : Nat}
    {s : Int × ParseState U N × FlvStream} {s' : Int × ParseState U' N × FlvStream}
    (hs : StepRelated R Ahead s s') {r : Int × ParseState U N}
    (hparse : parseFrom parser fuel s = some r) :
    ∃ r', FlvMeta.parseFrom parser' fuel s' = some r' ∧ ResultRelated R Ahead r r' := by
  unfold FlvMeta.parseFrom at hparse ⊢
  cases hs with
  | same retval stream hst =>
    dsimp only at hparse ⊢
    split at hparse
    · rename_i hretval
      rw [if_pos hretval]
      cases hparse
      exact ⟨_, rfl, .inl ⟨rfl, hst⟩⟩
    · rename_i hretval
      rw [if_neg hretval]
      obtain ⟨e, hloop, rfl⟩ := Option.map_eq_some_iff.mp hparse
      obtain ⟨e', hloop', he⟩ := h.parseTurn.loop hst hloop
      rw [hloop']
      exact ⟨_, rfl, h.parseEnd he⟩
  | stop stream hretval hahead =>
    rw [if_pos hretval]
    refine ⟨_, rfl, ?_⟩
    split at hparse
    · cases hparse
      exact .inr hahead
    · obtain ⟨e, hloop, rfl⟩ := Option.map_eq_some_iff.mp hparse
      exact h.parseEnd (h.parseTurn.loop_ahead stream hahead hloop)

/-- On every file parsers in lockstep return the same status with the same events and related data,
or the second has stopped and the first is ahead. -/
theorem flvParse (h : parser.Lockstep parser' R Ahead) {user : U} {user' : U'} (hR : R user user')
    (file : Option Bytes) {r : Int × ParseState U N} (hparse : flvParse parser user file = some r) :
    ∃ r', FlvMeta.flvParse parser' user' file = some r' ∧ ResultRelated R Ahead r r' := by
  cases file with
  | none =>
    cases hparse
    exact ⟨_, rfl, .inl ⟨rfl, rfl, hR⟩⟩
  | some content =>
    cases hheader : flvReadHeader (flvOpen content) with
    | mk result stream =>
      cases result with
      | error status =>
        rw [flvParse_of_noHeader hheader] at hparse ⊢
        cases hparse
        exact ⟨_, rfl, .inl ⟨rfl, rfl, hR⟩⟩
      | ok header =>
        rw [flvParse_of_header hheader] at hparse ⊢
        exact h.parseFrom (h.deliver (.header header) stream ⟨rfl, hR⟩) hparse

end FlvParser.Lockstep

end FlvMeta
