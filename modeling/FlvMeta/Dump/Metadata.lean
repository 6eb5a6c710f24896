import FlvMeta.Dump.Formats
import FlvMeta.Flv.Events

/-!
# Dumps of metadata

`dumpMetadata` prints the data of the script tags with a given name, or of the first one named
`onMetaData`, where it stops. It is compared with a parser that takes note of all script tags
(`scriptTags`) and never stops: whatever the format, what is printed is selected from these, in the
order of the file (`dumpMetadata_selects`).
-/

namespace FlvMeta

open Stdio

variable {N : Type}

/-! ## The callbacks -/

/-- The status `FLVMETA_DUMP_STOP_OK`. -/
def flvmetaDumpStopOk : Int := 10

/-- `dump_amf_data`. -/
def dumpAmfData (lib : DumpLibrary N) (dumpFormat : ReportFormat) (data : AmfData N) :
    DumpOutput N :=
  match dumpFormat with
  | .json => .json (jsonAmfDataDump lib.toJsonLibrary data jsonEmitInit).output
  | .raw => .raw (dumpRawAmfData lib data)
  | .xml => .xml (dumpXmlAmfData lib.toXmlLibrary data)
  | .yaml => .yaml (dumpYamlAmfData lib data)

/-- The callback of all formats, which are printed one after the other. -/
def onMetadataTagOnly (dump : AmfData N → DumpOutput N) (metadataEvent : Option Bytes) (_ : FlvTag)
    (name : Bytes) (data : AmfData N) : Callback (List (DumpOutput N)) := fun output stream =>
  match metadataEvent with
  | none =>
    if cString name = ascii "onMetaData" then (flvmetaDumpStopOk, output ++ [dump data], stream)
    else (0, output, stream)
  | some metadataEvent =>
    if cString name = cString metadataEvent then (0, output ++ [dump data], stream)
    else (0, output, stream)

section

variable (lib : DumpLibrary N)

def jsonOnMetadataTagOnly := onMetadataTagOnly (dumpAmfData lib .json)
def rawOnMetadataTagOnly := onMetadataTagOnly (dumpAmfData lib .raw)
def xmlOnMetadataTagOnly := onMetadataTagOnly (dumpAmfData lib .xml)
def yamlOnMetadataTagOnly := onMetadataTagOnly (dumpAmfData lib .yaml)

/-- The parser that the `dump_*_setup_metadata_dump` functions set up. -/
def metadataParser (dumpFormat : ReportFormat) (metadataEvent : Option Bytes) :
    FlvParser (List (DumpOutput N)) N where
  onHeader := none
  onTag := none
  onMetadataTag := some (match dumpFormat with
    | .json => jsonOnMetadataTagOnly lib metadataEvent
    | .raw => rawOnMetadataTagOnly lib metadataEvent
    | .xml => xmlOnMetadataTagOnly lib metadataEvent
    | .yaml => yamlOnMetadataTagOnly lib metadataEvent)
  onAudioTag := none
  onVideoTag := none
  onUnknownTag := none
  onPrevTagSize := none
  onStreamEnd := none

/-- `dump_metadata`: the status, and what is printed. -/
def dumpMetadata [NumberImage N] (dumpFormat : ReportFormat) (metadataEvent : Option Bytes)
    (file : Option Bytes) : Option (Int × List (DumpOutput N)) :=
  (flvParse (metadataParser lib dumpFormat metadataEvent) [] file).map fun r =>
    (if r.1 = flvmetaDumpStopOk then FlvStatus.ok.code else r.1, r.2.user)

theorem metadataParser_onMetadataTag (dumpFormat : ReportFormat) (metadataEvent : Option Bytes) :
    (metadataParser lib dumpFormat metadataEvent).onMetadataTag =
      some (onMetadataTagOnly (dumpAmfData lib dumpFormat) metadataEvent) := by
  cases dumpFormat <;> rfl

end

/-! ## All script tags -/

/-- A parser that notes the name and the data of each script tag. -/
def scriptParser : FlvParser (List (Bytes × AmfData N)) N where
  onHeader := none
  onTag := none
  onMetadataTag := some fun _ name data tags stream => (0, tags ++ [(cString name, data)], stream)
  onAudioTag := none
  onVideoTag := none
  onUnknownTag := none
  onPrevTagSize := none
  onStreamEnd := none

/-- The script tags of a file, up to an error, and the status of the parser. -/
def scriptTags [NumberImage N] (file : Option Bytes) : Option (Int × List (Bytes × AmfData N)) :=
  (flvParse scriptParser [] file).map fun r => (r.1, r.2.user)

theorem scriptParser_callback {event : FlvEvent N} {f : Callback (List (Bytes × AmfData N))}
    (h : scriptParser.callback event = some f) :
    ∃ tag name data, event = .metadataTag tag name data ∧
      f = fun tags stream => (0, tags ++ [(cString name, data)], stream) := by
  cases event with
  | metadataTag tag name data =>
    cases h
    exact ⟨tag, name, data, rfl, rfl⟩
  | _ => cases h

theorem returnsOk_scriptParser : (scriptParser : FlvParser _ N).ReturnsOk := by
  intro event f hf user stream
  obtain ⟨tag, name, data, -, rfl⟩ := scriptParser_callback hf
  rfl

theorem onlyReadsBodies_scriptParser : (scriptParser : FlvParser _ N).OnlyReadsBodies := by
  intro event f hf user stream
  obtain ⟨tag, name, data, -, rfl⟩ := scriptParser_callback hf
  exact ⟨[], rfl⟩

/-! ## Statuses -/

section

variable {U : Type} {parser : FlvParser U N}

/-- A status of the library of FLV files. -/
def IsStatus (retval : Int) : Prop := ∃ status : FlvStatus, retval = status.code

theorem isStatus_code (status : FlvStatus) : IsStatus status.code := ⟨status, rfl⟩

theorem IsStatus.ne_stop {retval : Int} (h : IsStatus retval) : retval ≠ flvmetaDumpStopOk := by
  obtain ⟨status, rfl⟩ := h
  cases status <;> decide

theorem isStatus_deliver (hok : parser.ReturnsOk) (event : FlvEvent N) (st : ParseState U N)
    (stream : FlvStream) : IsStatus (deliver parser event st stream).1 := by
  unfold deliver
  cases hcallback : parser.callback event with
  | none => exact ⟨.ok, rfl⟩
  | some f => exact ⟨.ok, hok event f hcallback st.user stream⟩

theorem isStatus_unlessFailed {r : Int × ParseState U N × FlvStream}
    {next : ParseState U N → FlvStream → Int × ParseState U N × FlvStream} (hr : IsStatus r.1)
    (hnext : IsStatus (next r.2.1 r.2.2).1) : IsStatus (unlessFailed r next).1 := by
  unfold unlessFailed
  split
  · exact hr
  · exact hnext

variable [NumberImage N]

theorem isStatus_parseTag (hok : parser.ReturnsOk) (tag : FlvTag) (st : ParseState U N)
    (stream : FlvStream) : IsStatus (parseTag parser tag st stream).1 := by
  refine isStatus_unlessFailed (isStatus_deliver hok _ _ _) (isStatus_unlessFailed ?_ ?_)
  · unfold parseTagBody
    split
    · split
      · exact isStatus_deliver hok _ _ _
      · split
        · exact isStatus_code _
        · exact isStatus_code .ok
    · split
      · split
        · exact isStatus_deliver hok _ _ _
        · split
          · exact isStatus_code _
          · exact isStatus_code .ok
      · split
        · dsimp only
          split
          · exact isStatus_code _
          · split
            · exact isStatus_deliver hok _ _ _
            · exact isStatus_code .ok
        · exact isStatus_deliver hok _ _ _
  · unfold parsePrevTagSize
    split
    · exact isStatus_code _
    · exact isStatus_deliver hok _ _ _

/-- A parser whose callbacks return zero returns a status of the library. -/
theorem isStatus_flvParse (hok : parser.ReturnsOk) {user : U} {file : Option Bytes}
    {r : Int × ParseState U N} (h : flvParse parser user file = some r) : IsStatus r.1 := by
  cases file with
  | none =>
    cases h
    exact isStatus_code .errorOpenRead
  | some content =>
    cases hheader : flvReadHeader (flvOpen content) with
    | mk result stream =>
      cases result with
      | error status =>
        rw [flvParse_of_noHeader hheader] at h
        cases h
        exact isStatus_code _
      | ok header =>
        rw [flvParse_of_header hheader, parseFrom] at h
        split at h
        · cases h
          exact isStatus_deliver hok _ _ _
        · obtain ⟨⟨e, stream₁⟩, hloop, rfl⟩ := Option.map_eq_some_iff.mp h
          have hholds := Loop.loop_keeps (I := fun _ : ParseState U N => True)
            (P := fun r => IsStatus r.1) (fun _ _ => trivial) ?_ trivial hloop
          · cases e with
            | finished st => exact isStatus_deliver hok _ _ _
            | noItem st => exact isStatus_deliver hok _ _ _
            | stopped r => exact hholds
          · intro tag st r stream stream' _ hturn
            have htag := isStatus_parseTag hok tag st stream
            unfold parseTurn at hturn
            generalize parseTag parser tag st stream = r' at hturn htag
            obtain ⟨retval, st₁, stream₁⟩ := r'
            dsimp only at hturn
            split at hturn
            · cases hturn
              exact htag
            · cases hturn

end

/-! ## Selection -/

section

variable (lib : DumpLibrary N) (dumpFormat : ReportFormat)

/-- With a name, the dump keeps up with the parser of all script tags. -/
theorem lockstep_named (metadataEvent : Bytes) :
    scriptParser.Lockstep (metadataParser lib dumpFormat (some metadataEvent))
      (fun tags output => output = (tags.filter fun t => t.1 = cString metadataEvent).map
        fun t => dumpAmfData lib dumpFormat t.2)
      fun _ _ _ => False where
  handled event := by cases event <;> rfl
  step event f f' hf hf' tags output stream houtput := by
    obtain ⟨tag, name, data, rfl, rfl⟩ := scriptParser_callback hf
    rw [FlvParser.callback, metadataParser_onMetadataTag] at hf'
    cases hf'
    dsimp only [onMetadataTagOnly]
    split
    · rename_i hname
      exact .same 0 stream (by simp [houtput, hname])
    · rename_i hname
      exact .same 0 stream (by simp [houtput, hname])
  ahead _ _ _ _ _ _ _ hahead := hahead.elim

/-- Without a name, it keeps up until the first tag named `onMetaData`, and stops there. -/
theorem lockstep_onMetaData :
    scriptParser.Lockstep (metadataParser lib dumpFormat none)
      (fun tags output => tags.find? (fun t => t.1 = ascii "onMetaData") = none ∧ output = [])
      fun tags retval output => ∃ t, tags.find? (fun t => t.1 = ascii "onMetaData") = some t ∧
        retval = flvmetaDumpStopOk ∧ output = [dumpAmfData lib dumpFormat t.2] where
  handled event := by cases event <;> rfl
  step event f f' hf hf' tags output stream hfind := by
    obtain ⟨hfind, rfl⟩ := hfind
    obtain ⟨tag, name, data, rfl, rfl⟩ := scriptParser_callback hf
    rw [FlvParser.callback, metadataParser_onMetadataTag] at hf'
    cases hf'
    dsimp only [onMetadataTagOnly]
    split
    · rename_i hname
      refine .stop stream (by decide) ⟨(cString name, data), ?_, rfl, rfl⟩
      rw [List.find?_append, hfind]
      simp [hname]
    · rename_i hname
      refine .same 0 stream ⟨?_, rfl⟩
      rw [List.find?_append, hfind]
      simp [hname]
  ahead event f hf tags retval output stream hahead := by
    obtain ⟨t, hfind, hresult⟩ := hahead
    obtain ⟨tag, name, data, rfl, rfl⟩ := scriptParser_callback hf
    refine ⟨t, ?_, hresult⟩
    rw [List.find?_append, hfind, Option.some_or]

variable [NumberImage N]

/-- With a name, the dump prints the script tags with that name. -/
theorem dumpMetadata_named (metadataEvent : Bytes) {file : Option Bytes} {retval : Int}
    {tags : List (Bytes × AmfData N)} (h : scriptTags file = some (retval, tags)) :
    dumpMetadata lib dumpFormat (some metadataEvent) file =
      some (retval, (tags.filter fun t => t.1 = cString metadataEvent).map
        fun t => dumpAmfData lib dumpFormat t.2) := by
  obtain ⟨⟨retval₁, st⟩, hparse, hresult⟩ := Option.map_eq_some_iff.mp h
  cases hresult
  obtain ⟨⟨retval', st'⟩, hdump, hrelated⟩ :=
    (lockstep_named lib dumpFormat metadataEvent).flvParse
      (show ([] : List (DumpOutput N)) = _ from rfl) file hparse
  rcases hrelated with ⟨hretval, -, houtput⟩ | ⟨-, hfalse⟩
  · dsimp only at hretval houtput
    subst hretval
    rw [dumpMetadata, hdump, Option.map_some,
      if_neg (isStatus_flvParse returnsOk_scriptParser hparse).ne_stop, houtput]
  · exact hfalse.elim

/-- Without a name, it prints the first script tag named `onMetaData`. -/
theorem dumpMetadata_first {file : Option Bytes} {retval : Int} {tags : List (Bytes × AmfData N)}
    (h : scriptTags file = some (retval, tags)) :
    dumpMetadata lib dumpFormat none file =
      some (match tags.find? fun t => t.1 = ascii "onMetaData" with
        | none => (retval, [])
        | some t => (0, [dumpAmfData lib dumpFormat t.2])) := by
  obtain ⟨⟨retval₁, st⟩, hparse, hresult⟩ := Option.map_eq_some_iff.mp h
  cases hresult
  obtain ⟨⟨retval', st'⟩, hdump, hrelated⟩ :=
    (lockstep_onMetaData lib dumpFormat).flvParse ⟨rfl, rfl⟩ file hparse
  rcases hrelated with ⟨hretval, -, hfind, houtput⟩ | ⟨-, t, hfind, hretval, houtput⟩
  · dsimp only at hretval hfind houtput
    subst hretval
    rw [dumpMetadata, hdump, Option.map_some,
      if_neg (isStatus_flvParse returnsOk_scriptParser hparse).ne_stop, hfind, houtput]
  · dsimp only at hretval hfind houtput
    subst hretval
    rw [dumpMetadata, hdump, Option.map_some, if_pos rfl, hfind, houtput]
    rfl

/-- In every format the dump of metadata prints the data of the script tags with the given name, in
the order of the file, and returns the status of the parser. Without a name it prints those of the
first tag named `onMetaData` and succeeds, whatever comes behind this tag, or it prints nothing. -/
theorem dumpMetadata_selects (file : Option Bytes) :
    ∃ retval tags, scriptTags (N := N) file = some (retval, tags) ∧
      (∀ metadataEvent, dumpMetadata lib dumpFormat (some metadataEvent) file =
        some (retval, (tags.filter fun t => t.1 = cString metadataEvent).map
          fun t => dumpAmfData lib dumpFormat t.2)) ∧
      dumpMetadata lib dumpFormat none file =
        some (match tags.find? fun t => t.1 = ascii "onMetaData" with
          | none => (retval, [])
          | some t => (0, [dumpAmfData lib dumpFormat t.2])) := by
  obtain ⟨⟨retval, st⟩, hparse⟩ := Option.isSome_iff_exists.mp
    (flvParse_isSome (onlyReadsBodies_scriptParser (N := N)) [] file)
  have htags : scriptTags file = some (retval, st.user) := by
    rw [scriptTags, hparse, Option.map_some]
  exact ⟨retval, st.user, htags,
    fun metadataEvent => dumpMetadata_named lib dumpFormat metadataEvent htags,
    dumpMetadata_first lib dumpFormat htags⟩

end

end FlvMeta
