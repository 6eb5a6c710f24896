import FlvMeta.Check.Run

/-!
# The verdict of a check

The conditions that are met on a file are those that a check with the lowest level displays
(`metConditions`); a check with any options counts and displays some of them. From this it follows
when the status of a check is that of the conditions that are met, whatever the options are
(`checkFlvFile_verdict_iff`).
-/

namespace FlvMeta

variable {N : Type}

/-! ## Counting and displaying -/

/-- The level of the errors that decide the status. -/
def CheckMessage.IsError (m : CheckMessage N) : Prop := m.level = .error ∨ m.level = .fatal

instance (m : CheckMessage N) : Decidable m.IsError := inferInstanceAs (Decidable (_ ∨ _))

/-- An error that is counted with some options. -/
def Counted (opts : CheckOpts) (m : CheckMessage N) : Prop :=
  m.IsError ∧ opts.checkLevel.code ≤ m.level.code

instance (opts : CheckOpts) (m : CheckMessage N) : Decidable (Counted opts m) :=
  inferInstanceAs (Decidable (_ ∧ _))

/-- A message that is displayed with some options. -/
def Displayed (opts : CheckOpts) (m : CheckMessage N) : Prop :=
  opts.quiet = false ∧ opts.checkLevel.code ≤ m.level.code

instance (opts : CheckOpts) (m : CheckMessage N) : Decidable (Displayed opts m) :=
  inferInstanceAs (Decidable (_ ∧ _))

theorem errors_reportPrintMessage (opts : CheckOpts) (m : CheckMessage N) (report : Report N) :
    (reportPrintMessage opts m report).errors = report.errors := by
  unfold reportPrintMessage
  split
  · rfl
  · split <;> rfl

theorem output_reportPrintMessage (opts : CheckOpts) (m : CheckMessage N) (report : Report N) :
    (reportPrintMessage opts m report).output = report.output ++
      if Displayed opts m then [.message opts.checkReportFormat m] else [] := by
  unfold reportPrintMessage
  by_cases hquiet : opts.quiet
  · have hno : ¬ Displayed opts m := fun h => Bool.false_ne_true (h.1.symm.trans hquiet)
    rw [if_pos hquiet, if_neg hno, List.append_nil]
  · have hquiet' : opts.quiet = false := Bool.eq_false_iff.mpr hquiet
    rw [if_neg hquiet]
    by_cases hlevel : opts.checkLevel.code ≤ m.level.code
    · rw [if_pos hlevel, if_pos (show Displayed opts m from ⟨hquiet', hlevel⟩)]
      rfl
    · rw [if_neg hlevel, if_neg (fun h : Displayed opts m => hlevel h.2), List.append_nil]

theorem output_countWarning (opts : CheckOpts) (level : CheckLevel) (report : Report N) :
    (report.countWarning opts level).output = report.output := by
  unfold Report.countWarning
  split <;> rfl

theorem output_countError (opts : CheckOpts) (level : CheckLevel) (report : Report N) :
    (report.countError opts level).output = report.output := by
  unfold Report.countError
  split <;> rfl

theorem errors_countWarning (opts : CheckOpts) (level : CheckLevel) (report : Report N) :
    (report.countWarning opts level).errors = report.errors := by
  unfold Report.countWarning
  split <;> rfl

theorem errors_countError (opts : CheckOpts) (level : CheckLevel) (report : Report N) :
    (report.countError opts level).errors =
      if opts.checkLevel.code ≤ level.code then (report.errors + 1) % 2 ^ 32
      else report.errors := by
  unfold Report.countError
  split <;> rfl

theorem errors_say (opts : CheckOpts) (report : Report N) (m : CheckMessage N) :
    (report.say opts m).errors =
      if Counted opts m then (report.errors + 1) % 2 ^ 32 else report.errors := by
  obtain ⟨level, code, offset, message⟩ := m
  rw [Report.say, errors_reportPrintMessage]
  cases level with
  | info => simp [Counted, CheckMessage.IsError]
  | warning => simp [Counted, CheckMessage.IsError, errors_countWarning]
  | error => simp [Counted, CheckMessage.IsError, errors_countError]
  | fatal => simp [Counted, CheckMessage.IsError, errors_countError]

theorem output_say (opts : CheckOpts) (report : Report N) (m : CheckMessage N) :
    (report.say opts m).output = report.output ++
      if Displayed opts m then [.message opts.checkReportFormat m] else [] := by
  rw [Report.say, output_reportPrintMessage]
  split
  · rfl
  · rw [output_countWarning]
  · rw [output_countError]
  · rw [output_countError]

theorem errors_sayAll (opts : CheckOpts) {report : Report N} (h : report.errors < 2 ^ 32)
    (messages : List (CheckMessage N)) :
    (report.sayAll opts messages).errors =
      (report.errors + messages.countP (Counted opts ·)) % 2 ^ 32 := by
  induction messages generalizing report with
  | nil => exact (Nat.mod_eq_of_lt h).symm
  | cons m messages ih =>
    have hsay := errors_say opts report m
    rw [Report.sayAll, List.foldl_cons, ← Report.sayAll]
    by_cases hcounted : Counted opts m
    · rw [if_pos hcounted] at hsay
      have hcons : (m :: messages).countP (Counted opts ·) = messages.countP (Counted opts ·) + 1 :=
        List.countP_cons_of_pos (decide_eq_true hcounted)
      rw [ih (by rw [hsay]; exact Nat.mod_lt _ (by decide)), hsay, hcons]
      omega
    · rw [if_neg hcounted] at hsay
      have hcons : (m :: messages).countP (Counted opts ·) = messages.countP (Counted opts ·) :=
        List.countP_cons_of_neg (by simpa using hcounted)
      rw [ih (by rwa [hsay]), hsay, hcons]

theorem output_sayAll (opts : CheckOpts) (report : Report N) (messages : List (CheckMessage N)) :
    (report.sayAll opts messages).output = report.output ++
      (messages.filter (Displayed opts ·)).map (.message opts.checkReportFormat) := by
  induction messages generalizing report with
  | nil => simp [Report.sayAll]
  | cons m messages ih =>
    rw [Report.sayAll, List.foldl_cons, ← Report.sayAll, ih, output_say, List.filter_cons]
    by_cases h : Displayed opts m
    · simp [h]
    · simp [h]

theorem errors_reportStart (env : Environment) (opts : CheckOpts) :
    (reportStart env opts (.init : Report N)).errors = 0 := by
  unfold reportStart
  split
  · rfl
  · cases opts.checkReportFormat <;> rfl

theorem errors_reportEnd (opts : CheckOpts) (report : Report N) :
    (reportEnd opts report).errors = report.errors := by
  unfold reportEnd
  split <;> rfl

theorem output_reportEnd (opts : CheckOpts) (report : Report N) :
    (reportEnd opts report).output = report.output ++
      if opts.quiet then []
      else [.finish opts.checkReportFormat report.errors report.warnings] := by
  unfold reportEnd
  split
  · exact (List.append_nil _).symm
  · rfl

/-! ## The conditions that are met -/

/-- Options with which everything is displayed. -/
def everything : CheckOpts := ⟨[], .info, false, .raw⟩

def ReportItem.message? : ReportItem N → Option (CheckMessage N)
  | message _ m => some m
  | _ => none

theorem conditions_of_sayAll (messages : List (CheckMessage N)) :
    ((Report.init : Report N).sayAll everything messages).output.filterMap ReportItem.message? =
      messages := by
  have hall : messages.filter (Displayed everything ·) = messages :=
    List.filter_eq_self.mpr fun m _ => decide_eq_true ⟨rfl, Nat.zero_le _⟩
  have hmessage : (ReportItem.message? ∘ ReportItem.message everything.checkReportFormat :
      CheckMessage N → Option (CheckMessage N)) = some := rfl
  rw [output_sayAll, hall, Report.init, List.nil_append, List.filterMap_map, hmessage,
    List.filterMap_some]

variable [Number64 N]

/-- The conditions that are met on a file, in the order in which they are. -/
def metConditions (info : FlvInfo N) (content : Bytes) : List (CheckMessage N) :=
  (((checkContent info content).run everything).run.run .init).2.output.filterMap
    ReportItem.message?

omit [Number64 N] in
/-- The global checks print a warning when there is no size, and otherwise information only. -/
theorem says_checkGlobal (filesize : Nat) (st : CheckLocals N) :
    ∃ size video audio : CheckMessage N, ∃ rest,
      size.level = .warning ∧ video.level = .info ∧ audio.level = .info ∧
      (∀ m ∈ rest, m.level = .info) ∧ ∀ info : FlvInfo N,
        Says (checkGlobal filesize st info) (some ())
          ((if info.videoWidth = 0 ∧ info.videoHeight = 0 then [size] else []) ++
            ((if info.haveVideo then [video] else []) ++
              ((if info.haveAudio then [audio] else []) ++ rest))) := by
  have hinfo : ∀ {c : Prop} [Decidable c] {code : CheckCode} {message : List (Printed N)},
      ∀ m ∈ (if c then [(⟨.info, code, 0, message⟩ : CheckMessage N)] else []),
        m.level = .info := by
    intro c _ code message m hm
    split at hm
    · rw [List.mem_singleton.mp hm]
    · cases hm
  refine ⟨_, _, _, _, rfl, rfl, rfl, ?_, fun info => .bind (.onlyIf (.printWarning _ _ _))
    (.bind (.onlyIf (.printInfo _ _ _)) (.bind (.onlyIf (.printInfo _ _ _))
      (.bind (.onlyIf (.printInfo _ _ _)) (.onlyIf (.printInfo _ _ _)))))⟩
  intro m hm
  exact (List.mem_append.mp hm).elim (hinfo m) (hinfo m)

/-- Before the global checks the check has jumped to its end, or they add no errors. -/
theorem checkContent_run {content : Bytes} {result : Option (CheckLocals N × MetadataOutcome N)}
    {messages : List (CheckMessage N)} (h : Says (checkBefore content) result messages)
    (info : FlvInfo N) :
    ∃ global, Says (checkContent info content) (result.map Prod.snd) (messages ++ global) ∧
      ∀ m ∈ global, ¬ m.IsError := by
  cases result with
  | none =>
    refine ⟨[], ?_, fun m hm => by cases hm⟩
    rw [List.append_nil]
    exact h.bind_none
  | some r =>
    obtain ⟨st, outcome⟩ := r
    obtain ⟨size, video, audio, rest, hsize, hvideo, haudio, hrest, hsaid⟩ :=
      says_checkGlobal content.length st
    have hglobal : ∀ info : FlvInfo N, ∃ global,
        Says (checkGlobal content.length st info) (some ()) global ∧
          ∀ m ∈ global, ¬ m.IsError := by
      intro info
      refine ⟨_, hsaid info, fun m hm herror => ?_⟩
      have hone : ∀ {c : Prop} [Decidable c] {m' : CheckMessage N},
          m ∈ (if c then [m'] else []) → m = m' := by
        intro c _ m' hmem
        split at hmem
        · exact List.mem_singleton.mp hmem
        · cases hmem
      have hlevel : m.level = .warning ∨ m.level = .info := by
        rcases List.mem_append.mp hm with hm | hm
        · exact Or.inl (hone hm ▸ hsize)
        rcases List.mem_append.mp hm with hm | hm
        · exact Or.inr (hone hm ▸ hvideo)
        rcases List.mem_append.mp hm with hm | hm
        · exact Or.inr (hone hm ▸ haudio)
        · exact Or.inr (hrest m hm)
      rcases hlevel with h | h <;> simp [CheckMessage.IsError, h] at herror
    have hends : ∀ global : List (CheckMessage N), global = global ++ [] := fun global =>
      (List.append_nil global).symm
    cases outcome with
    | missing =>
      obtain ⟨global, hrun, hno⟩ := hglobal info
      refine ⟨global, ?_, hno⟩
      rw [hends global]
      exact h.bind (hrun.bind (.pure _))
    | filled filled =>
      obtain ⟨global, hrun, hno⟩ := hglobal filled
      refine ⟨global, ?_, hno⟩
      rw [hends global]
      exact h.bind (hrun.bind (.pure _))
    | undefined =>
      refine ⟨[], ?_, fun m hm => by cases hm⟩
      rw [hends []]
      exact h.bind ((Says.pure ()).bind (.pure _))

theorem metConditions_of_run {content : Bytes} {info : FlvInfo N}
    {result : Option (MetadataOutcome N)} {messages : List (CheckMessage N)}
    (h : Says (checkContent info content) result messages) :
    metConditions info content = messages := by
  rw [metConditions, h everything .init]
  exact conditions_of_sayAll messages

/-- A fatal condition is met exactly if the check jumps to its end before the global checks. -/
theorem exists_fatal_iff {content : Bytes} {result : Option (CheckLocals N × MetadataOutcome N)}
    {messages : List (CheckMessage N)} (h : Says (checkBefore content) result messages)
    (hlast : FatalLast result messages) (info : FlvInfo N) :
    (∃ m ∈ metConditions info content, m.level = .fatal) ↔ result = none := by
  obtain ⟨global, hsaid, hno⟩ := checkContent_run h info
  have hpos := List.countP_pos_iff (p := fun m : CheckMessage N => decide (m.level = .fatal))
    (l := messages)
  simp only [decide_eq_true_iff] at hpos
  rw [hlast] at hpos
  rw [metConditions_of_run hsaid]
  constructor
  · rintro ⟨m, hm, hlevel⟩
    rcases List.mem_append.mp hm with hm | hm
    · have hlt := hpos.mpr ⟨m, hm, hlevel⟩
      cases result with
      | none => rfl
      | some r => cases hlt
    · exact absurd (Or.inr hlevel) (hno m hm)
  · rintro rfl
    obtain ⟨m, hm, hlevel⟩ := hpos.mp Nat.one_pos
    exact ⟨m, List.mem_append_left _ hm, hlevel⟩

/-- The offsets of the tags that a check reads. -/
def checkedTags (N : Type) [Number64 N] (env : Environment) (opts : CheckOpts) (content : Bytes) :
    List Nat :=
  Loop.keys flvGetCurrentTagOffset
    (checkTurns env opts content : List (FlvTag × (CheckLocals N × Report N) × FlvStream))

/-- A fatal condition ends the check, or the loop over the first `onMetaData`, if there is one,
only follows nodes and only compares strings. -/
def WalkDefined (env : Environment) (opts : CheckOpts) (info : FlvInfo N) (content : Bytes) :
    Prop :=
  (∃ m ∈ metConditions info content, m.level = .fatal) ∨
    ∀ p ∈ firstOnMetadata N content (checkedTags N env opts content),
      walkable (keptData N content p) = true

/-- What `info` holds at first decides neither how a check ends nor which errors are met, of which
one at most is fatal. -/
theorem metConditions_errors (content : Bytes) :
    ∃ (result : Option (MetadataOutcome N)) (errors : List (CheckMessage N)),
      errors.countP (·.level = .fatal) ≤ 1 ∧
      ∀ info, (metConditions info content).filter (·.IsError) = errors ∧
        Says (checkContent info content) result (metConditions info content) ∧
        ∀ env opts, result = some .undefined ↔ ¬ WalkDefined env opts info content := by
  obtain ⟨result, offsets, messages, hbefore, hlast, hresult, hkeys⟩ :=
    checkBefore_run (N := N) content
  refine ⟨result.map Prod.snd, messages.filter (·.IsError), ?_, fun info => ?_⟩
  · have hle := List.Sublist.countP_le (p := fun m : CheckMessage N => decide (m.level = .fatal))
      (List.filter_sublist (p := fun m : CheckMessage N => decide m.IsError) (l := messages))
    rw [hlast] at hle
    split at hle <;> omega
  · obtain ⟨global, hsaid, hno⟩ := checkContent_run hbefore info
    have hglobal : global.filter (·.IsError) = [] :=
      List.filter_eq_nil_iff.mpr fun m hm => by simpa using hno m hm
    refine ⟨?_, ?_, fun env opts => ?_⟩
    · rw [metConditions_of_run hsaid, List.filter_append, hglobal, List.append_nil]
    · rw [metConditions_of_run hsaid]
      exact hsaid
    · have hkeys' : checkedTags N env opts content = offsets := hkeys env opts
      rw [WalkDefined, exists_fatal_iff hbefore hlast info, hkeys']
      cases result with
      | none => simp
      | some r =>
        obtain ⟨hends, -, -⟩ := hresult r rfl
        rw [Option.map_some, Option.some.injEq, hends.undefined]
        simp

/-! ## The status -/

omit [Number64 N] in
theorem countP_counted (opts : CheckOpts) (messages : List (CheckMessage N)) :
    messages.countP (Counted opts ·) =
      (messages.filter (·.IsError)).countP (opts.checkLevel.code ≤ ·.level.code) := by
  rw [List.countP_filter]
  refine List.countP_congr fun m _ => ?_
  simp [Counted, and_comm]

/-- The report of a check that says these messages, where its behaviour is defined. -/
theorem checkReport_of_run {content : Bytes} {info : FlvInfo N}
    {result : Option (MetadataOutcome N)} {messages : List (CheckMessage N)}
    (h : Says (checkContent info content) result messages) (hne : result ≠ some .undefined)
    (env : Environment) (opts : CheckOpts) :
    checkReport env opts info content =
      some (reportEnd opts ((reportStart env opts .init).sayAll opts messages)) := by
  rw [checkReport, h opts (reportStart env opts .init)]
  split
  · rename_i heq
    exact absurd (Prod.mk.inj heq).1 hne
  · rename_i heq
    rw [(Prod.mk.inj heq).2]

theorem checkReport_undefined {content : Bytes} {info : FlvInfo N}
    {messages : List (CheckMessage N)}
    (h : Says (checkContent info content) (some .undefined) messages) (env : Environment)
    (opts : CheckOpts) : checkReport env opts info content = none := by
  rw [checkReport, h opts (reportStart env opts .init)]

/-- A check has a status where its behaviour is defined, and then by the errors that it counts. -/
theorem checkFlvFile_status_iff (env : Environment) (opts : CheckOpts) (info : FlvInfo N)
    (content : Bytes) (status : CheckStatus) :
    (checkFlvFile env opts info (some content)).map Prod.fst = some status ↔
      WalkDefined env opts info content ∧
        status = if 0 < (metConditions info content).countP (Counted opts ·) % 2 ^ 32 then
          .errorInvalidFlvFile else .ok := by
  obtain ⟨result, errors, -, hall⟩ := metConditions_errors (N := N) content
  obtain ⟨-, hsaid, hundefined⟩ := hall info
  by_cases hdefined : WalkDefined env opts info content
  · have hne : result ≠ some .undefined := fun h => (hundefined env opts).mp h hdefined
    have hrun := checkReport_of_run hsaid hne env opts
    have hstart : (reportStart env opts (.init : Report N)).errors < 2 ^ 32 := by
      rw [errors_reportStart]
      exact Nat.two_pow_pos 32
    have hcounted := errors_sayAll opts hstart (metConditions info content)
    rw [errors_reportStart, Nat.zero_add] at hcounted
    rw [checkFlvFile, hrun, Option.map_some, Option.map_some, errors_reportEnd, hcounted,
      Option.some.injEq, and_iff_right hdefined, eq_comm]
  · rw [(hundefined env opts).mpr hdefined] at hsaid
    rw [checkFlvFile, checkReport_undefined hsaid env opts]
    exact iff_of_false (by simp) fun h => hdefined h.1

/-- With the options every error that is met shows in the status: errors that are not fatal are
not counted with the level `fatal`, and the others are counted in a `uint32`. -/
def ErrorsShow (opts : CheckOpts) (conditions : List (CheckMessage N)) : Prop :=
  if opts.checkLevel = .fatal then
    (∃ m ∈ conditions, m.level = .fatal) ∨ ∀ m ∈ conditions, m.level ≠ .error
  else 2 ^ 32 ∣ conditions.countP (·.IsError) → ∀ m ∈ conditions, ¬ m.IsError

omit [Number64 N] in
theorem errorsShow_iff (opts : CheckOpts) {conditions : List (CheckMessage N)}
    (hone : conditions.countP (·.level = .fatal) ≤ 1) :
    (¬ 2 ^ 32 ∣ conditions.countP (Counted opts ·) ↔ ∃ m ∈ conditions, m.IsError) ↔
      ErrorsShow opts conditions := by
  unfold ErrorsShow
  split
  · rename_i hlevel
    have hcounted : conditions.countP (Counted opts ·) = conditions.countP (·.level = .fatal) := by
      refine List.countP_congr fun m _ => ?_
      rw [decide_eq_true_iff, decide_eq_true_iff, Counted, CheckMessage.IsError, hlevel]
      cases m.level <;> decide
    have hfatal : ¬ 2 ^ 32 ∣ conditions.countP (Counted opts ·) ↔
        ∃ m ∈ conditions, m.level = .fatal := by
      have hpos := List.countP_pos_iff (p := fun m : CheckMessage N => decide (m.level = .fatal))
        (l := conditions)
      simp only [decide_eq_true_iff] at hpos
      rw [hcounted, ← hpos]
      omega
    rw [hfatal]
    constructor
    · intro h
      by_cases hf : ∃ m ∈ conditions, m.level = .fatal
      · exact Or.inl hf
      · exact Or.inr fun m hm he => hf (h.mpr ⟨m, hm, Or.inl he⟩)
    · rintro (hf | hno)
      · exact ⟨fun ⟨m, hm, h⟩ => ⟨m, hm, Or.inr h⟩, fun _ => hf⟩
      · exact ⟨fun ⟨m, hm, h⟩ => ⟨m, hm, Or.inr h⟩,
          fun ⟨m, hm, h⟩ => ⟨m, hm, h.resolve_left (hno m hm)⟩⟩
  · rename_i hlevel
    have hcounted : conditions.countP (Counted opts ·) = conditions.countP (·.IsError) := by
      refine List.countP_congr fun m _ => ?_
      rw [decide_eq_true_iff, decide_eq_true_iff, Counted]
      refine and_iff_left_of_imp fun herror => ?_
      have hcode : opts.checkLevel.code ≤ 2 := by
        revert hlevel
        cases opts.checkLevel <;> decide
      rcases herror with h | h
      · rw [h]
        exact hcode
      · rw [h]
        exact Nat.le_succ_of_le hcode
    have hpos := List.countP_pos_iff (p := fun m : CheckMessage N => decide m.IsError)
      (l := conditions)
    simp only [decide_eq_true_iff] at hpos
    rw [hcounted, ← hpos]
    constructor
    · intro h hdvd m hm herror
      exact (h.mpr (hpos.mpr ⟨m, hm, herror⟩)) hdvd
    · intro h
      constructor
      · intro hdvd
        exact Nat.pos_of_ne_zero fun hzero => hdvd (hzero ▸ Nat.dvd_zero _)
      · intro hlt hdvd
        obtain ⟨m, hm, herror⟩ := hpos.mp hlt
        exact h hdvd m hm herror

/-- The errors that are met are counted in the same way whatever `info` holds at first. -/
theorem countP_counted_info (opts : CheckOpts) (info info' : FlvInfo N) (content : Bytes) :
    (metConditions info' content).countP (Counted opts ·) =
      (metConditions info content).countP (Counted opts ·) := by
  obtain ⟨result, errors, -, hall⟩ := metConditions_errors (N := N) content
  rw [countP_counted, countP_counted, (hall info).1, (hall info').1]

theorem countP_fatal_le (info : FlvInfo N) (content : Bytes) :
    (metConditions info content).countP (·.level = .fatal) ≤ 1 := by
  obtain ⟨result, errors, hone, hall⟩ := metConditions_errors (N := N) content
  refine le_trans (le_of_eq ?_) hone
  rw [← (hall info).1, List.countP_filter]
  exact List.countP_congr fun m _ => by simp +contextual [CheckMessage.IsError]

/-- Neither the options nor what `info` holds at first decide whether the behaviour is defined. -/
theorem walkDefined_congr (env env' : Environment) (opts opts' : CheckOpts)
    (info info' : FlvInfo N) (content : Bytes) :
    WalkDefined env' opts' info' content ↔ WalkDefined env opts info content := by
  obtain ⟨result, errors, -, hall⟩ := metConditions_errors (N := N) content
  have h := (hall info).2.2 env opts
  have h' := (hall info').2.2 env' opts'
  exact not_iff_not.mp (h'.symm.trans h)

/-- Two checks of a file with any options have the status that the conditions deserve exactly when
the loop over `onMetaData` is defined and the errors show with either options. -/
theorem checkFlvFile_verdict_iff (env env' : Environment) (opts opts' : CheckOpts)
    (info info' : FlvInfo N) (content : Bytes) :
    (∃ status, (checkFlvFile env opts info (some content)).map Prod.fst = some status ∧
      (checkFlvFile env' opts' info' (some content)).map Prod.fst = some status ∧
      (status = .errorInvalidFlvFile ↔ ∃ m ∈ metConditions info content, m.IsError)) ↔
    WalkDefined env opts info content ∧ ErrorsShow opts (metConditions info content) ∧
      ErrorsShow opts' (metConditions info content) := by
  have hfatal := countP_fatal_le info content
  have hstatus : ∀ n : Nat, (if 0 < n % 2 ^ 32 then CheckStatus.errorInvalidFlvFile else .ok) =
      .errorInvalidFlvFile ↔ ¬ 2 ^ 32 ∣ n := by
    intro n
    rw [Nat.dvd_iff_mod_eq_zero, ← Ne, ← Nat.pos_iff_ne_zero]
    simp
  simp only [checkFlvFile_status_iff]
  rw [walkDefined_congr env env' opts opts' info info', countP_counted_info opts' info info',
    ← errorsShow_iff opts hfatal, ← errorsShow_iff opts' hfatal]
  generalize (metConditions info content).countP (Counted opts ·) = n
  generalize (metConditions info content).countP (Counted opts' ·) = n'
  constructor
  · rintro ⟨status, ⟨hdefined, hn⟩, ⟨-, hn'⟩, hiff⟩
    refine ⟨hdefined, ?_, ?_⟩
    · rw [← hiff, hn, hstatus]
    · rw [← hiff, hn', hstatus]
  · rintro ⟨hdefined, hiff, hiff'⟩
    refine ⟨_, ⟨hdefined, rfl⟩, ⟨hdefined, ?_⟩, by rw [hstatus, hiff]⟩
    have hsame : 0 < n % 2 ^ 32 ↔ 0 < n' % 2 ^ 32 := by
      rw [Nat.pos_iff_ne_zero, Nat.pos_iff_ne_zero, Ne, Ne, ← Nat.dvd_iff_mod_eq_zero,
        ← Nat.dvd_iff_mod_eq_zero]
      exact hiff.trans hiff'.symm
    simp only [hsame]

/-- A file of one audio tag whose version is not 1. -/
def versionFile : Bytes :=
  [0x46, 0x4C, 0x56, 2, 4, 0, 0, 0, 9, 0, 0, 0, 0, 8, 0, 0, 1, 0, 0, 0, 0, 0, 0, 0, 0x2F, 0, 0, 0,
    12]

omit [Number64 N] in
/-- With the level `fatal` the version is not counted as an error. -/
theorem checkFlvFile_levelFatal :
    letI := blankImage
    ¬ ∀ (env : Environment) (opts opts' : CheckOpts) (info : FlvInfo ℚ) (content : Bytes),
      opts'.inputFile = opts.inputFile →
      ∃ status, (checkFlvFile env opts info (some content)).map Prod.fst = some status ∧
        (checkFlvFile env opts' info (some content)).map Prod.fst = some status ∧
        (status = .errorInvalidFlvFile ↔ ∃ m ∈ metConditions info content, m.IsError) := by
  let := blankImage
  intro h
  obtain ⟨status, hwarning, hfatal, -⟩ := h ⟨[], 0⟩ ⟨[], .warning, false, .raw⟩
    ⟨[], .fatal, false, .raw⟩ (FlvInfo.init (flvHeaderOfBytes versionFile)) versionFile rfl
  have heq := hwarning.trans hfatal.symm
  revert heq
  decide +kernel

end FlvMeta
