import FlvMeta.Flv.Stream
import FlvMeta.Info.Compute

/-!
# The report of a check

A check prints messages of four levels. What is counted and what is displayed of them depends on
the options. `CheckM` is a part of the check: it reads the options and the report, and it may jump
to the end of the check. `Says` gives the result of such a part and the messages that it prints
with whatever options: no part that is built from the macros reads the counters.
-/

namespace FlvMeta

/-! ## Codes and messages -/

inductive CheckLevel where
  | info | warning | error | fatal
deriving DecidableEq, Repr

/-- The number of a level; a level is compared with the one of the options. -/
def CheckLevel.code : CheckLevel → Nat
  | info => 0
  | warning => 1
  | error => 2
  | fatal => 3

inductive CheckCode where
  | fatalHeaderEof | fatalHeaderNoSignature | errorHeaderBadVersion | errorHeaderNoStreams
  | infoHeaderNoAudio | warningHeaderNoVideo | errorHeaderBadReservedFlags | errorHeaderBadOffset
  | fatalPrevTagSizeEof | errorPrevTagSizeBadFirst | fatalGeneralNoTag | fatalTagEof
  | errorTagTypeUnknown | warningHeaderUnexpectedVideo | warningHeaderUnexpectedAudio
  | fatalTagBodyLengthOverflow | warningTagBodyLengthLarge | warningTagBodyLengthZero
  | errorTimestampFirstNonZero | errorTimestampAudioDecrease | errorTimestampVideoDecrease
  | errorTimestampOverflow | errorTimestampDecrease | warningTimestampDesync
  | errorTagStreamIdNonZero | warningAudioFormatChanged | warningAudioCodecUnknown
  | warningAudioCodecReserved | warningAudioCodecAacBad | warningAudioCodecNellymoserBad
  | warningAudioCodecAacMono | warningAudioCodecLinearPcm | warningVideoFormatChanged
  | errorVideoFrameTypeUnknown | warningVideoNoFirstKeyframe | errorVideoCodecUnknown
  | warningVideoCodecJpeg | warningMetadataEmpty | errorMetadataNameInvalid
  | errorMetadataDataInvalid | errorMetadataNameInvalidType | warningMetadataNameEmpty
  | warningMetadataDataRemaining | warningMetadataDataMissing | warningMetadataLastSecondDup
  | errorMetadataDataInvalidType | warningMetadataBadTag | warningMetadataBadTimestamp
  | warningMetadataDuplicate | infoMetadataNameUnknown | errorPrevTagSizeBad
  | warningHeaderVideoNotFound | warningHeaderAudioNotFound | warningTimestampVideoEndsFirst
  | warningTimestampAudioEndsFirst | warningVideoNoKeyframe | warningVideoOnlyKeyframes
  | warningVideoOnlyKfLastSec | warningMetadataLastSecondBad | warningMetadataNotPresent
  | fatalInfoComputationError | warningAmfDataInvalidValue | warningAmfDataInvalidType
  | warningAmfDataVideoNeeded | warningAmfDataAudioNeeded | warningAmfDataAudioVideoNeeded
  | warningKeyframesTimesMissing | warningKeyframesFileposMissing | warningKeyframesTimesTypeBad
  | warningKeyframesFileposTypeBad | warningKeyframesArrayLengthBad | warningKeyframesTimeTypeBad
  | warningKeyframesPosTypeBad | warningKeyframesTimeBad | warningKeyframesPosBad
  | warningKeyframesTimeDuplicate | errorVideoWidthMissing | errorVideoHeightMissing
  | warningVideoSizeError | infoVideoCodec | infoAudioFormat | infoTimestampUseExtended
  | infoGeneralLargeFile | fatalConsecutiveUnknownTags
deriving DecidableEq, Repr

/-- The level, the topic and the identifier of which a code consists. -/
def CheckCode.parts : CheckCode → CheckLevel × Nat × Nat
  | fatalHeaderEof => (.fatal, 11, 1)
  | fatalHeaderNoSignature => (.fatal, 11, 2)
  | errorHeaderBadVersion => (.error, 11, 3)
  | errorHeaderNoStreams => (.error, 11, 4)
  | infoHeaderNoAudio => (.info, 11, 5)
  | warningHeaderNoVideo => (.warning, 11, 6)
  | errorHeaderBadReservedFlags => (.error, 11, 7)
  | errorHeaderBadOffset => (.error, 11, 8)
  | fatalPrevTagSizeEof => (.fatal, 12, 9)
  | errorPrevTagSizeBadFirst => (.error, 12, 10)
  | fatalGeneralNoTag => (.fatal, 10, 11)
  | fatalTagEof => (.fatal, 20, 12)
  | errorTagTypeUnknown => (.error, 30, 13)
  | warningHeaderUnexpectedVideo => (.warning, 11, 14)
  | warningHeaderUnexpectedAudio => (.warning, 11, 15)
  | fatalTagBodyLengthOverflow => (.fatal, 20, 16)
  | warningTagBodyLengthLarge => (.warning, 20, 17)
  | warningTagBodyLengthZero => (.warning, 20, 18)
  | errorTimestampFirstNonZero => (.error, 40, 19)
  | errorTimestampAudioDecrease => (.error, 40, 20)
  | errorTimestampVideoDecrease => (.error, 40, 21)
  | errorTimestampOverflow => (.error, 40, 22)
  | errorTimestampDecrease => (.error, 40, 23)
  | warningTimestampDesync => (.warning, 40, 24)
  | errorTagStreamIdNonZero => (.error, 20, 25)
  | warningAudioFormatChanged => (.warning, 50, 26)
  | warningAudioCodecUnknown => (.warning, 51, 27)
  | warningAudioCodecReserved => (.warning, 51, 28)
  | warningAudioCodecAacBad => (.warning, 51, 29)
  | warningAudioCodecNellymoserBad => (.warning, 51, 30)
  | warningAudioCodecAacMono => (.warning, 51, 31)
  | warningAudioCodecLinearPcm => (.warning, 51, 32)
  | warningVideoFormatChanged => (.warning, 60, 33)
  | errorVideoFrameTypeUnknown => (.error, 60, 34)
  | warningVideoNoFirstKeyframe => (.warning, 60, 35)
  | errorVideoCodecUnknown => (.error, 61, 36)
  | warningVideoCodecJpeg => (.warning, 61, 37)
  | warningMetadataEmpty => (.warning, 70, 38)
  | errorMetadataNameInvalid => (.error, 70, 39)
  | errorMetadataDataInvalid => (.error, 70, 40)
  | errorMetadataNameInvalidType => (.error, 70, 41)
  | warningMetadataNameEmpty => (.warning, 70, 42)
  | warningMetadataDataRemaining => (.warning, 70, 43)
  | warningMetadataDataMissing => (.warning, 70, 44)
  | warningMetadataLastSecondDup => (.warning, 70, 45)
  | errorMetadataDataInvalidType => (.error, 70, 46)
  | warningMetadataBadTag => (.warning, 70, 47)
  | warningMetadataBadTimestamp => (.warning, 70, 48)
  | warningMetadataDuplicate => (.warning, 70, 49)
  | infoMetadataNameUnknown => (.info, 70, 50)
  | errorPrevTagSizeBad => (.error, 12, 51)
  | warningHeaderVideoNotFound => (.warning, 11, 52)
  | warningHeaderAudioNotFound => (.warning, 11, 53)
  | warningTimestampVideoEndsFirst => (.warning, 40, 54)
  | warningTimestampAudioEndsFirst => (.warning, 40, 55)
  | warningVideoNoKeyframe => (.warning, 60, 56)
  | warningVideoOnlyKeyframes => (.warning, 60, 57)
  | warningVideoOnlyKfLastSec => (.warning, 60, 58)
  | warningMetadataLastSecondBad => (.warning, 70, 59)
  | warningMetadataNotPresent => (.warning, 70, 60)
  | fatalInfoComputationError => (.fatal, 10, 61)
  | warningAmfDataInvalidValue => (.warning, 80, 62)
  | warningAmfDataInvalidType => (.warning, 80, 63)
  | warningAmfDataVideoNeeded => (.warning, 80, 64)
  | warningAmfDataAudioNeeded => (.warning, 80, 65)
  | warningAmfDataAudioVideoNeeded => (.warning, 80, 66)
  | warningKeyframesTimesMissing => (.warning, 81, 67)
  | warningKeyframesFileposMissing => (.warning, 81, 68)
  | warningKeyframesTimesTypeBad => (.warning, 81, 69)
  | warningKeyframesFileposTypeBad => (.warning, 81, 70)
  | warningKeyframesArrayLengthBad => (.warning, 81, 71)
  | warningKeyframesTimeTypeBad => (.warning, 81, 72)
  | warningKeyframesPosTypeBad => (.warning, 81, 73)
  | warningKeyframesTimeBad => (.warning, 81, 74)
  | warningKeyframesPosBad => (.warning, 81, 75)
  | warningKeyframesTimeDuplicate => (.warning, 81, 76)
  | errorVideoWidthMissing => (.error, 60, 77)
  | errorVideoHeightMissing => (.error, 60, 78)
  | warningVideoSizeError => (.warning, 60, 79)
  | infoVideoCodec => (.info, 61, 80)
  | infoAudioFormat => (.info, 51, 81)
  | infoTimestampUseExtended => (.info, 40, 82)
  | infoGeneralLargeFile => (.info, 10, 83)
  | fatalConsecutiveUnknownTags => (.fatal, 30, 84)

/-- An argument of `sprintf`, or what stands between two of them. -/
inductive Printed (N : Type) where
  | text (s : String)
  | unsigned (value : Nat)
  | signed (value : Int)
  | number (value : N)
  | bytes (s : Bytes)
deriving DecidableEq

structure CheckMessage (N : Type) where
  level : CheckLevel
  code : CheckCode
  offset : Nat
  message : List (Printed N)
deriving DecidableEq

/-! ## Options and report -/

inductive ReportFormat where
  | xml | raw | json | yaml
deriving DecidableEq, Repr

/-- The options that the check command reads, with the file name that the report repeats. -/
structure CheckOpts where
  inputFile : Bytes
  checkLevel : CheckLevel
  quiet : Bool
  checkReportFormat : ReportFormat

/-- What is written to the standard output. -/
inductive ReportItem (N : Type) where
  | start (format : ReportFormat) (filename : Bytes) (creationDate : Int) (generator : Bytes)
  | message (format : ReportFormat) (message : CheckMessage N)
  | finish (format : ReportFormat) (errors warnings : Nat)
deriving DecidableEq

/-- The counters, both `uint32`, and the output. -/
structure Report (N : Type) where
  errors : Nat
  warnings : Nat
  output : List (ReportItem N)
deriving DecidableEq

variable {N : Type}

def Report.init : Report N := ⟨0, 0, []⟩

def Report.write (item : ReportItem N) (report : Report N) : Report N :=
  { report with output := report.output ++ [item] }

/-- The plain report has no head. -/
def reportStart (env : Environment) (opts : CheckOpts) (report : Report N) : Report N :=
  if opts.quiet then report
  else
    match opts.checkReportFormat with
    | .xml => report.write (.start .xml opts.inputFile env.time env.packageString)
    | .json => report.write (.start .json opts.inputFile env.time env.packageString)
    | _ => report

def reportEnd (opts : CheckOpts) (report : Report N) : Report N :=
  if opts.quiet then report
  else report.write (.finish opts.checkReportFormat report.errors report.warnings)

def reportPrintMessage (opts : CheckOpts) (message : CheckMessage N) (report : Report N) :
    Report N :=
  if opts.quiet then report
  else if opts.checkLevel.code ≤ message.level.code then
    report.write (.message opts.checkReportFormat message)
  else report

def Report.countWarning (opts : CheckOpts) (level : CheckLevel) (report : Report N) : Report N :=
  if opts.checkLevel.code ≤ level.code then
    { report with warnings := (report.warnings + 1) % 2 ^ 32 }
  else report

def Report.countError (opts : CheckOpts) (level : CheckLevel) (report : Report N) : Report N :=
  if opts.checkLevel.code ≤ level.code then { report with errors := (report.errors + 1) % 2 ^ 32 }
  else report

/-! ## Parts of the check -/

/-- A part of the check, without a result when it jumps to the end. -/
abbrev CheckM (N : Type) := ReaderT CheckOpts (OptionT (StateM (Report N)))

def changeReport (f : CheckOpts → Report N → Report N) : CheckM N Unit := fun opts =>
  OptionT.mk fun report => (some (), f opts report)

def printInfo (code : CheckCode) (offset : Nat) (message : List (Printed N)) : CheckM N Unit :=
  changeReport fun opts report => reportPrintMessage opts ⟨.info, code, offset, message⟩ report

def printWarning (code : CheckCode) (offset : Nat) (message : List (Printed N)) :
    CheckM N Unit :=
  changeReport fun opts report =>
    reportPrintMessage opts ⟨.warning, code, offset, message⟩ (report.countWarning opts .warning)

def printError (code : CheckCode) (offset : Nat) (message : List (Printed N)) : CheckM N Unit :=
  changeReport fun opts report =>
    reportPrintMessage opts ⟨.error, code, offset, message⟩ (report.countError opts .error)

def printFatal (code : CheckCode) (offset : Nat) (message : List (Printed N)) : CheckM N Unit :=
  changeReport fun opts report =>
    reportPrintMessage opts ⟨.fatal, code, offset, message⟩ (report.countError opts .fatal)

/-- `goto end`. -/
def gotoEnd {α : Type} : CheckM N α := fun _ => OptionT.mk fun report => (none, report)

/-- A fatal message and the jump behind it. -/
def fatalEnd {α : Type} (code : CheckCode) (offset : Nat) (message : List (Printed N)) :
    CheckM N α := do
  printFatal code offset message
  gotoEnd

/-- A block without an alternative. -/
def onlyIf (c : Prop) [Decidable c] (x : CheckM N Unit) : CheckM N Unit := if c then x else pure ()

/-! ## What a part says -/

/-- A message is counted and displayed according to its level. -/
def Report.say (opts : CheckOpts) (report : Report N) (message : CheckMessage N) : Report N :=
  reportPrintMessage opts message
    (match message.level with
    | .info => report
    | .warning => report.countWarning opts .warning
    | .error => report.countError opts .error
    | .fatal => report.countError opts .fatal)

def Report.sayAll (opts : CheckOpts) (report : Report N) (messages : List (CheckMessage N)) :
    Report N :=
  messages.foldl (Report.say opts) report

theorem Report.sayAll_append (opts : CheckOpts) (report : Report N)
    (messages messages' : List (CheckMessage N)) :
    report.sayAll opts (messages ++ messages') =
      (report.sayAll opts messages).sayAll opts messages' :=
  List.foldl_append

/-- With any options and whatever the report is, `x` has this result and prints these messages. -/
def Says {α : Type} (x : CheckM N α) (result : Option α) (messages : List (CheckMessage N)) :
    Prop :=
  ∀ opts report, (x.run opts).run.run report = (result, report.sayAll opts messages)

namespace Says

variable {α β : Type} {messages messages' : List (CheckMessage N)}

theorem pure (a : α) : Says (Pure.pure a : CheckM N α) (some a) [] := fun _ _ => rfl

theorem gotoEnd : Says (FlvMeta.gotoEnd : CheckM N α) none [] := fun _ _ => rfl

theorem printInfo (code : CheckCode) (offset : Nat) (message : List (Printed N)) :
    Says (FlvMeta.printInfo code offset message) (some ()) [⟨.info, code, offset, message⟩] :=
  fun _ _ => rfl

theorem printWarning (code : CheckCode) (offset : Nat) (message : List (Printed N)) :
    Says (FlvMeta.printWarning code offset message) (some ())
      [⟨.warning, code, offset, message⟩] :=
  fun _ _ => rfl

theorem printError (code : CheckCode) (offset : Nat) (message : List (Printed N)) :
    Says (FlvMeta.printError code offset message) (some ()) [⟨.error, code, offset, message⟩] :=
  fun _ _ => rfl

theorem printFatal (code : CheckCode) (offset : Nat) (message : List (Printed N)) :
    Says (FlvMeta.printFatal code offset message) (some ()) [⟨.fatal, code, offset, message⟩] :=
  fun _ _ => rfl

theorem bind {x : CheckM N α} {f : α → CheckM N β} {a : α} {result : Option β}
    (hx : Says x (some a) messages) (hf : Says (f a) result messages') :
    Says (x >>= f) result (messages ++ messages') := by
  intro opts report
  rw [ReaderT.run_bind, OptionT.run_bind, Option.elimM, StateT.run_bind, hx opts report,
    Report.sayAll_append]
  exact hf opts (report.sayAll opts messages)

theorem onlyIf {c : Prop} [Decidable c] {x : CheckM N Unit} (hx : Says x (some ()) messages) :
    Says (FlvMeta.onlyIf c x) (some ()) (if c then messages else []) := by
  unfold FlvMeta.onlyIf
  split
  · exact hx
  · exact .pure ()

theorem bind_none {x : CheckM N α} {f : α → CheckM N β} (hx : Says x none messages) :
    Says (x >>= f) none messages := by
  intro opts report
  rw [ReaderT.run_bind, OptionT.run_bind, Option.elimM, StateT.run_bind, hx opts report]
  rfl

theorem fatalEnd (code : CheckCode) (offset : Nat) (message : List (Printed N)) :
    Says (FlvMeta.fatalEnd code offset message : CheckM N α) none
      [⟨.fatal, code, offset, message⟩] :=
  .bind (.printFatal code offset message) .gotoEnd

end Says

/-- A jump to the end is preceded by a fatal message, and no other message is fatal. -/
def FatalLast {α : Type} (result : Option α) (messages : List (CheckMessage N)) : Prop :=
  messages.countP (·.level = .fatal) = if result.isSome then 0 else 1

theorem FatalLast.append {α β : Type} {a : α} {result : Option β}
    {messages messages' : List (CheckMessage N)} (h : FatalLast (some a) messages)
    (h' : FatalLast result messages') : FatalLast result (messages ++ messages') := by
  unfold FatalLast at h h' ⊢
  rw [List.countP_append, h, h']
  exact Nat.zero_add _

/-- With any options `x` prints the same messages and has the same result, which has the property
`Q` when there is one; it jumps to the end when the message is fatal. -/
def Speaks {α : Type} (x : CheckM N α) (Q : α → Prop) : Prop :=
  ∃ result messages, Says x result messages ∧ (∀ a, result = some a → Q a) ∧
    FatalLast result messages

namespace Speaks

variable {α β : Type} {Q : α → Prop} {R : β → Prop}

theorem pure {a : α} (h : Q a) : Speaks (Pure.pure a : CheckM N α) Q :=
  ⟨some a, [], .pure a, fun _ heq => Option.some.inj heq ▸ h, rfl⟩

theorem bind {x : CheckM N α} {f : α → CheckM N β} (hx : Speaks x Q)
    (hf : ∀ a, Q a → Speaks (f a) R) : Speaks (x >>= f) R := by
  obtain ⟨result, messages, hsaid, hQ, hlast⟩ := hx
  cases result with
  | none =>
    exact ⟨none, messages, .bind_none hsaid, fun _ heq => (Option.some_ne_none _ heq.symm).elim,
      hlast⟩
  | some a =>
    obtain ⟨result, messages', hsaid', hR, hlast'⟩ := hf a (hQ a rfl)
    exact ⟨result, messages ++ messages', .bind hsaid hsaid', hR, hlast.append hlast'⟩

theorem weaken {Q' : α → Prop} {x : CheckM N α} (hx : Speaks x Q) (h : ∀ a, Q a → Q' a) :
    Speaks x Q' := by
  obtain ⟨result, messages, hsaid, hQ, hlast⟩ := hx
  exact ⟨result, messages, hsaid, fun a heq => h a (hQ a heq), hlast⟩

theorem printInfo (code : CheckCode) (offset : Nat) (message : List (Printed N)) :
    Speaks (FlvMeta.printInfo code offset message) fun _ => True :=
  ⟨_, _, .printInfo code offset message, fun _ _ => trivial, rfl⟩

theorem printWarning (code : CheckCode) (offset : Nat) (message : List (Printed N)) :
    Speaks (FlvMeta.printWarning code offset message) fun _ => True :=
  ⟨_, _, .printWarning code offset message, fun _ _ => trivial, rfl⟩

theorem printError (code : CheckCode) (offset : Nat) (message : List (Printed N)) :
    Speaks (FlvMeta.printError code offset message) fun _ => True :=
  ⟨_, _, .printError code offset message, fun _ _ => trivial, rfl⟩

theorem fatalEnd (code : CheckCode) (offset : Nat) (message : List (Printed N)) :
    Speaks (FlvMeta.fatalEnd code offset message : CheckM N α) Q :=
  ⟨none, _, .fatalEnd code offset message, fun _ heq => (Option.some_ne_none _ heq.symm).elim, rfl⟩

theorem ite {c : Prop} [Decidable c] {x y : CheckM N α} (hx : c → Speaks x Q)
    (hy : ¬ c → Speaks y Q) : Speaks (if c then x else y) Q := by
  split
  · exact hx ‹_›
  · exact hy ‹_›

theorem onlyIf {c : Prop} [Decidable c] {x : CheckM N Unit} (hx : Speaks x fun _ => True) :
    Speaks (FlvMeta.onlyIf c x) fun _ => True :=
  .ite (fun _ => hx) fun _ => .pure trivial

end Speaks

end FlvMeta
