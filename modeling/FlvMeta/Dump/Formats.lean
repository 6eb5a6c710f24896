import FlvMeta.Check.Report
import FlvMeta.Dump.Raw
import FlvMeta.Dump.XmlCallbacks
import FlvMeta.Dump.Yaml
import FlvMeta.Flv.Lockstep

/-!
# The formats of a dump

`dumpFlvFile` dumps a file in one of four formats. The callbacks of a format print what they like,
but they read the bodies of the tags alike and fail alike (`Dumps`), so that the status of a dump
and the events of the parser do not depend on the format (`dumpFlvFile_formats`).
-/

namespace FlvMeta

open Json Yaml

variable {N : Type}

/-- What a dump writes to the standard output. -/
inductive DumpOutput (N : Type) where
  | json (tokens : List (Token (JsonNumber N)))
  | raw (text : Bytes)
  | xml (text : Bytes)
  | yaml (events : YamlOutput)

/-- The result of a dump, with its output in one type. -/
def dumped {U : Type} (output : U → DumpOutput N) (r : Option (Int × ParseState U N)) :
    Option (Int × ParseState (DumpOutput N) N) :=
  r.map fun r => (r.1, ⟨output r.2.user, r.2.events⟩)

/-- `dump_flv_file`. -/
def dumpFlvFile [NumberImage N] (lib : DumpLibrary N) (dumpFormat : ReportFormat)
    (file : Option Bytes) : Option (Int × ParseState (DumpOutput N) N) :=
  match dumpFormat with
  | .json => dumped (fun je => .json je.output) (dumpJsonFile lib.toJsonLibrary file)
  | .raw => dumped (fun raw => .raw raw.output) (dumpRawFile lib file)
  | .xml => dumped .xml (dumpXmlFile lib.toXmlLibrary file)
  | .yaml => dumped .yaml (dumpYamlFile lib file)

/-! ## What the callbacks read -/

/-- The status and the stream of a callback for a video tag. -/
def videoReads (vt : FlvVideoTag) (stream : FlvStream) : Int × FlvStream :=
  if flvVideoTagIsExtHeader vt then (0, stream)
  else if flvVideoTagCodecId vt = flvVideoTagCodecAvc then
    match flvReadTagBody 1 stream with
    | (type, stream) =>
      if type.length < 1 then (errorInvalidTag, stream)
      else if type.getD 0 0 = flvAvcPacketTypeNalu then
        match flvReadTagBody 3 stream with
        | (compositionTime, stream) =>
          if compositionTime.length < 3 then (errorInvalidTag, stream) else (0, stream)
      else (0, stream)
  else (0, stream)

/-- The status and the stream of a callback for an audio tag. -/
def audioReads (at' : UInt8) (stream : FlvStream) : Int × FlvStream :=
  if flvAudioTagSoundFormat at' = flvAudioTagSoundFormatAac then
    match flvReadTagBody 1 stream with
    | (type, stream) => if type.length < 1 then (errorInvalidTag, stream) else (0, stream)
  else (0, stream)

/-- What is read for an event, unless there is no callback. -/
def dumpReads : FlvEvent N → FlvStream → Option (Int × FlvStream)
  | .videoTag _ vt, stream => some (videoReads vt stream)
  | .audioTag _ at', stream => some (audioReads at' stream)
  | .unknownTag _, _ => none
  | _, stream => some (0, stream)

/-- A callback without what it does with the user data. -/
def Callback.reads {U : Type} (f : Callback U) (user : U) (stream : FlvStream) : Int × FlvStream :=
  ((f user stream).1, (f user stream).2.2)

/-- The callbacks of a full dump. -/
def FlvParser.Dumps {U : Type} (parser : FlvParser U N) : Prop :=
  ∀ event user stream, (parser.callback event).map (fun f => f.reads user stream) =
    dumpReads event stream

theorem reads_jsonOnVideoTag (tag : FlvTag) (vt : FlvVideoTag) (je : JsonEmitter N)
    (stream : FlvStream) : (jsonOnVideoTag tag vt).reads je stream = videoReads vt stream := by
  unfold Callback.reads jsonOnVideoTag videoReads
  dsimp only
  split
  · rfl
  · split
    · split
      · rfl
      · split
        · split <;> rfl
        · rfl
    · rfl

theorem reads_jsonOnAudioTag (tag : FlvTag) (at' : UInt8) (je : JsonEmitter N)
    (stream : FlvStream) : (jsonOnAudioTag tag at').reads je stream = audioReads at' stream := by
  unfold Callback.reads jsonOnAudioTag audioReads
  dsimp only
  split
  · split <;> rfl
  · rfl

theorem dumps_jsonParser (lib : JsonLibrary N) : (jsonParser lib).Dumps := by
  intro event je stream
  cases event with
  | videoTag tag vt => exact congrArg some (reads_jsonOnVideoTag tag vt je stream)
  | audioTag tag at' => exact congrArg some (reads_jsonOnAudioTag tag at' je stream)
  | _ => rfl

theorem reads_rawOnVideoTag (tag : FlvTag) (vt : FlvVideoTag) (raw : RawDump)
    (stream : FlvStream) : (rawOnVideoTag tag vt).reads raw stream = videoReads vt stream := by
  unfold Callback.reads rawOnVideoTag videoReads
  dsimp only
  split
  · rfl
  · split
    · split
      · rfl
      · split
        · split <;> rfl
        · rfl
    · rfl

theorem reads_rawOnAudioTag (tag : FlvTag) (at' : UInt8) (raw : RawDump)
    (stream : FlvStream) : (rawOnAudioTag tag at').reads raw stream = audioReads at' stream := by
  unfold Callback.reads rawOnAudioTag audioReads
  dsimp only
  split
  · split <;> rfl
  · rfl

theorem dumps_rawParser (lib : DumpLibrary N) : (rawParser lib).Dumps := by
  intro event raw stream
  cases event with
  | videoTag tag vt => exact congrArg some (reads_rawOnVideoTag tag vt raw stream)
  | audioTag tag at' => exact congrArg some (reads_rawOnAudioTag tag at' raw stream)
  | _ => rfl

theorem reads_xmlOnVideoTag (tag : FlvTag) (vt : FlvVideoTag) (output : Bytes)
    (stream : FlvStream) : (xmlOnVideoTag tag vt).reads output stream = videoReads vt stream := by
  unfold Callback.reads xmlOnVideoTag videoReads
  dsimp only
  split
  · rfl
  · split
    · split
      · rfl
      · split
        · split <;> rfl
        · rfl
    · rfl

theorem reads_xmlOnAudioTag (tag : FlvTag) (at' : UInt8) (output : Bytes)
    (stream : FlvStream) : (xmlOnAudioTag tag at').reads output stream = audioReads at' stream := by
  unfold Callback.reads xmlOnAudioTag audioReads
  dsimp only
  split
  · split <;> rfl
  · rfl

theorem dumps_xmlParser (lib : XmlLibrary N) : (xmlParser lib).Dumps := by
  intro event output stream
  cases event with
  | videoTag tag vt => exact congrArg some (reads_xmlOnVideoTag tag vt output stream)
  | audioTag tag at' => exact congrArg some (reads_xmlOnAudioTag tag at' output stream)
  | _ => rfl

theorem reads_yamlOnVideoTag (tag : FlvTag) (vt : FlvVideoTag) (emitter : YamlOutput)
    (stream : FlvStream) : (yamlOnVideoTag tag vt).reads emitter stream = videoReads vt stream := by
  unfold Callback.reads yamlOnVideoTag videoReads
  dsimp only
  split
  · rfl
  · split
    · split
      · rfl
      · split
        · split <;> rfl
        · rfl
    · rfl

theorem reads_yamlOnAudioTag (tag : FlvTag) (at' : UInt8) (emitter : YamlOutput)
    (stream : FlvStream) : (yamlOnAudioTag tag at').reads emitter stream =
    audioReads at' stream := by
  unfold Callback.reads yamlOnAudioTag audioReads
  dsimp only
  split
  · split <;> rfl
  · rfl

theorem dumps_yamlParser (lib : DumpLibrary N) : (yamlParser lib).Dumps := by
  intro event emitter stream
  cases event with
  | videoTag tag vt => exact congrArg some (reads_yamlOnVideoTag tag vt emitter stream)
  | audioTag tag at' => exact congrArg some (reads_yamlOnAudioTag tag at' emitter stream)
  | _ => rfl

/-! ## Formats -/

/-- Two full dumps are in lockstep, whatever their user data. -/
theorem FlvParser.Dumps.lockstep {U U' : Type} {parser : FlvParser U N} {parser' : FlvParser U' N}
    (h : parser.Dumps) (h' : parser'.Dumps) (user : U) (user' : U') :
    parser.Lockstep parser' (fun _ _ => True) fun _ _ _ => False where
  handled event := by
    have hreads := (h event user (flvOpen [])).trans (h' event user' (flvOpen [])).symm
    have hsome := congrArg Option.isSome hreads
    rwa [Option.isSome_map, Option.isSome_map] at hsome
  step event f f' hf hf' u u' stream _ := by
    have hreads := (h event u stream).trans (h' event u' stream).symm
    rw [hf, hf', Option.map_some, Option.map_some, Option.some.injEq] at hreads
    obtain ⟨hretval, hstream⟩ := Prod.mk.inj hreads
    generalize f u stream = r at hretval hstream ⊢
    generalize f' u' stream = r' at hretval hstream ⊢
    obtain ⟨retval, u₁, stream₁⟩ := r
    obtain ⟨retval', u₁', stream₁'⟩ := r'
    dsimp only at hretval hstream
    subst hretval hstream
    exact .same retval stream₁ trivial
  ahead _ _ _ _ _ _ _ hahead := hahead.elim

theorem videoReads_readBodies (vt : FlvVideoTag) (stream : FlvStream) :
    ∃ sizes, (videoReads vt stream).2 = readBodies sizes stream := by
  unfold videoReads
  split
  · exact ⟨[], rfl⟩
  · split
    · dsimp only
      split
      · exact ⟨[1], rfl⟩
      · split
        · split
          · exact ⟨[1, 3], rfl⟩
          · exact ⟨[1, 3], rfl⟩
        · exact ⟨[1], rfl⟩
    · exact ⟨[], rfl⟩

theorem audioReads_readBodies (at' : UInt8) (stream : FlvStream) :
    ∃ sizes, (audioReads at' stream).2 = readBodies sizes stream := by
  unfold audioReads
  split
  · dsimp only
    split
    · exact ⟨[1], rfl⟩
    · exact ⟨[1], rfl⟩
  · exact ⟨[], rfl⟩

/-- A full dump touches the stream only by reading bodies. -/
theorem FlvParser.Dumps.onlyReadsBodies {U : Type} {parser : FlvParser U N} (h : parser.Dumps) :
    parser.OnlyReadsBodies := by
  intro event f hf user stream
  have hreads := h event user stream
  rw [hf, Option.map_some] at hreads
  have hbodies : ∀ r, dumpReads event stream = some r →
      ∃ sizes, r.2 = readBodies sizes stream := by
    intro r hr
    cases event with
    | videoTag tag vt =>
      cases hr
      exact videoReads_readBodies vt stream
    | audioTag tag at' =>
      cases hr
      exact audioReads_readBodies at' stream
    | unknownTag tag => cases hr
    | _ =>
      cases hr
      exact ⟨[], rfl⟩
  exact hbodies _ hreads.symm

section

variable [NumberImage N]

/-- The result of a full dump and the events of another one are those of the first. -/
theorem FlvParser.Dumps.flvParse {U U' : Type} {parser : FlvParser U N} {parser' : FlvParser U' N}
    (h : parser.Dumps) (h' : parser'.Dumps) {user : U} {file : Option Bytes} {retval : Int}
    {st : ParseState U N} (hparse : flvParse parser user file = some (retval, st)) (user' : U') :
    ∃ st', FlvMeta.flvParse parser' user' file = some (retval, st') ∧ st'.events = st.events := by
  obtain ⟨⟨retval', st'⟩, hparse', hrelated⟩ :=
    (h.lockstep h' user user').flvParse trivial file hparse
  rcases hrelated with ⟨hretval, hevents, -⟩ | ⟨-, hfalse⟩
  · dsimp only at hretval hevents
    subst hretval
    exact ⟨st', hparse', hevents.symm⟩
  · exact hfalse.elim

/-- Every file is dumped with the same status in all formats, and the parser has found the same in
it. -/
theorem dumpFlvFile_formats (lib : DumpLibrary N) (file : Option Bytes) :
    ∃ retval events, ∀ dumpFormat, ∃ output,
      dumpFlvFile lib dumpFormat file = some (retval, ⟨output, events⟩) := by
  have hjson := dumps_jsonParser (N := N) lib.toJsonLibrary
  obtain ⟨⟨retval, st⟩, hparse⟩ := Option.isSome_iff_exists.mp
    (flvParse_isSome hjson.onlyReadsBodies jsonEmitInit file)
  refine ⟨retval, st.events, fun dumpFormat => ?_⟩
  cases dumpFormat with
  | json =>
    refine ⟨.json st.user.output, ?_⟩
    rw [dumpFlvFile, dumped, dumpJsonFile, hparse, Option.map_some]
  | raw =>
    obtain ⟨st', hraw, hevents⟩ := hjson.flvParse (dumps_rawParser lib) hparse ⟨0, []⟩
    refine ⟨.raw st'.user.output, ?_⟩
    rw [dumpFlvFile, dumped, dumpRawFile, hraw, Option.map_some, hevents]
  | xml =>
    obtain ⟨st', hxml, hevents⟩ := hjson.flvParse (dumps_xmlParser lib.toXmlLibrary) hparse []
    refine ⟨.xml st'.user, ?_⟩
    rw [dumpFlvFile, dumped, dumpXmlFile, hxml, Option.map_some, hevents]
  | yaml =>
    obtain ⟨st', hyaml, hevents⟩ := hjson.flvParse (dumps_yamlParser lib) hparse yamlOpen
    refine ⟨.yaml (yamlClose st'.user), ?_⟩
    rw [dumpFlvFile, dumped, dumpYamlFile, hyaml, Option.map_some, Option.map_some, hevents]

end

end FlvMeta
