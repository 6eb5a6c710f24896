import FlvMeta.Check.Verdict

/-!
# The information read by the last checks

The global checks read the local `info` of `check_flv_file` also when it has not been filled. This
is so exactly for the files that are checked to the end and hold no `onMetaData` event; what the
check of such a file prints depends on what `info` happens to hold, unless warnings and information
are not displayed.
-/

namespace FlvMeta

variable {N : Type}

/-! ## Messages that are not shown -/

/-- A message below the level of the options leaves the report as it is. -/
theorem say_of_below {opts : CheckOpts} (report : Report N) {m : CheckMessage N}
    (h : ¬ opts.checkLevel.code ≤ m.level.code) : report.say opts m = report := by
  obtain ⟨level, code, offset, message⟩ := m
  have hprint : ∀ report : Report N,
      reportPrintMessage opts ⟨level, code, offset, message⟩ report = report := fun report => by
    rw [reportPrintMessage, if_neg h, ite_self]
  rw [Report.say, hprint]
  cases level with
  | info => rfl
  | warning => exact if_neg h
  | error => exact if_neg h
  | fatal => exact if_neg h

theorem sayAll_of_below {opts : CheckOpts} (report : Report N) {messages : List (CheckMessage N)}
    (h : ∀ m ∈ messages, ¬ opts.checkLevel.code ≤ m.level.code) :
    report.sayAll opts messages = report := by
  induction messages with
  | nil => rfl
  | cons m messages ih =>
    rw [Report.sayAll, List.foldl_cons, say_of_below report (h m List.mem_cons_self)]
    exact ih fun m' hm' => h m' (List.mem_cons_of_mem m hm')

variable [Number64 N]

/-! ## The end of a check -/

/-- The outcome when the global checks are reached, with `info` filled or not. -/
def outcomeOf : Option (FlvInfo N) → MetadataOutcome N
  | none => .missing
  | some info => .filled info

/-- A check that reaches the global checks, and reads `filled`, or what `info` holds at first. -/
structure Reaches (content : Bytes) (filled : Option (FlvInfo N))
    (messages : List (CheckMessage N)) (size : CheckMessage N)
    (rest : FlvInfo N → List (CheckMessage N)) : Prop where
  size_level : size.level = .warning
  rest_level : ∀ info, ∀ m ∈ rest info, m.level = .info
  rest_plain : ∀ info info' : FlvInfo N, info.haveVideo = info'.haveVideo →
    info.haveAudio = info'.haveAudio → rest info = rest info'
  run : ∀ info, Says (checkContent info content) (some (outcomeOf filled))
    (messages ++ ((if (filled.getD info).videoWidth = 0 ∧ (filled.getD info).videoHeight = 0 then
      [size] else []) ++ rest (filled.getD info)))

/-- The check of a file stops at a fatal condition, is not defined or reaches the global checks. -/
theorem checkContent_cases {content : Bytes}
    {result : Option (CheckLocals N × MetadataOutcome N)} {messages : List (CheckMessage N)}
    (h : Says (checkBefore content) result messages) :
    (result = none ∧ ∀ info, Says (checkContent info content) none messages) ∨
    (∃ st, result = some (st, .undefined) ∧
      ∀ info, Says (checkContent info content) (some .undefined) messages) ∨
    ∃ st filled size rest, result = some (st, outcomeOf filled) ∧
      Reaches content filled messages size rest := by
  have hends : ∀ global : List (CheckMessage N), global ++ [] = global := List.append_nil
  cases result with
  | none => exact Or.inl ⟨rfl, fun info => h.bind_none⟩
  | some r =>
    obtain ⟨st, outcome⟩ := r
    obtain ⟨size, video, audio, rest, hsize, hvideo, haudio, hrest, hsaid⟩ :=
      says_checkGlobal content.length st
    let restOf : FlvInfo N → List (CheckMessage N) := fun info =>
      (if info.haveVideo then [video] else []) ++ ((if info.haveAudio then [audio] else []) ++ rest)
    have hlevel : ∀ info, ∀ m ∈ restOf info, m.level = .info := by
      intro info m hm
      rcases List.mem_append.mp hm with hm | hm
      · split at hm
        · rw [List.mem_singleton.mp hm, hvideo]
        · cases hm
      · rcases List.mem_append.mp hm with hm | hm
        · split at hm
          · rw [List.mem_singleton.mp hm, haudio]
          · cases hm
        · exact hrest m hm
    have hplain : ∀ info info' : FlvInfo N, info.haveVideo = info'.haveVideo →
        info.haveAudio = info'.haveAudio → restOf info = restOf info' := by
      intro info info' hv ha
      simp only [restOf, hv, ha]
    have hglobal : ∀ outcome info, Says (do
          checkGlobal content.length st info
          pure outcome : CheckM N (MetadataOutcome N)) (some outcome)
        ((if info.videoWidth = 0 ∧ info.videoHeight = 0 then [size] else []) ++ restOf info) := by
      intro outcome info
      have hbind := (hsaid info).bind (f := fun _ => Pure.pure outcome) (.pure outcome)
      rwa [hends] at hbind
    cases outcome with
    | missing =>
      exact Or.inr (Or.inr ⟨st, none, size, restOf, rfl, hsize, hlevel, hplain, fun info =>
        h.bind (hglobal .missing info)⟩)
    | filled filled =>
      exact Or.inr (Or.inr ⟨st, some filled, size, restOf, rfl, hsize, hlevel, hplain, fun info =>
        h.bind (hglobal (.filled filled) filled)⟩)
    | undefined =>
      refine Or.inr (Or.inl ⟨st, rfl, fun info => ?_⟩)
      have hbind : Says (checkContent info content) (some .undefined) (messages ++ ([] ++ [])) :=
        h.bind ((Says.pure ()).bind (.pure MetadataOutcome.undefined))
      rwa [hends, hends] at hbind

/-! ## When `info` has been filled -/

/-- A fatal condition ends the check, or there is an `onMetaData` event, and the loop over the first
one only follows nodes and only compares strings. -/
def FindsOnMetadata (env : Environment) (opts : CheckOpts) (info : FlvInfo N) (content : Bytes) :
    Prop :=
  (∃ m ∈ metConditions info content, m.level = .fatal) ∨
    ∃ p ∈ firstOnMetadata N content (checkedTags N env opts content),
      walkable (keptData N content p) = true

/-- Wherever the global checks are reached, `info` has been filled from the file. -/
def ReadsFilledInfo (N : Type) [Number64 N] (env : Environment) (opts : CheckOpts)
    (content : Bytes) : Prop :=
  ∀ (st : CheckLocals N) (outcome : MetadataOutcome N) (report : Report N),
    ((checkBefore content).run opts).run.run (reportStart env opts .init) =
      (some (st, outcome), report) →
    ∃ info, outcome = .filled info ∧ checkedInfo N content = .ok info

/-- What is printed and the status are defined, and do not depend on what `info` holds at first. -/
def IgnoresInitialInfo (N : Type) [Number64 N] (env : Environment) (opts : CheckOpts)
    (content : Bytes) : Prop :=
  ∃ r, ∀ info : FlvInfo N, checkFlvFile env opts info (some content) = some r

/-- What follows from the way a check ends. -/
theorem findsOnMetadata_iff (env : Environment) (opts : CheckOpts) (info : FlvInfo N)
    {content : Bytes} {result : Option (CheckLocals N × MetadataOutcome N)} {offsets : List Nat}
    {messages : List (CheckMessage N)} (h : Says (checkBefore content) result messages)
    (hlast : FatalLast result messages)
    (hends : ∀ r, result = some r →
      r.2.EndsAs content ((firstOnMetadata N content offsets).map (keptData N content)))
    (hkeys : checkedTags N env opts content = offsets) :
    FindsOnMetadata env opts info content ↔ ∀ st outcome, result = some (st, outcome) →
      ∃ filled, outcome = .filled filled := by
  rw [FindsOnMetadata, hkeys, exists_fatal_iff h hlast info]
  cases result with
  | none => simp
  | some r =>
    obtain ⟨st, outcome⟩ := r
    obtain ⟨hmissing, hundefined, -⟩ := hends (st, outcome) rfl
    dsimp only at hmissing hundefined
    have hforall : (∀ st' outcome', some (st, outcome) = some (st', outcome') →
        ∃ filled, outcome' = .filled filled) ↔ ∃ filled, outcome = .filled filled :=
      ⟨fun h => h st outcome rfl, fun h st' outcome' heq => by cases heq; exact h⟩
    rw [hforall, or_iff_right (Option.some_ne_none _)]
    cases hfirst : firstOnMetadata N content offsets with
    | none =>
      rw [hfirst] at hmissing
      rw [hmissing.mpr rfl]
      simp
    | some p =>
      rw [hfirst] at hmissing hundefined
      have hne : outcome ≠ .missing := fun h => by cases hmissing.mp h
      cases hwalk : walkable (keptData N content p) with
      | true =>
        have hdefined : outcome ≠ .undefined := by
          intro h
          obtain ⟨data, hdata, hno⟩ := hundefined.mp h
          cases hdata
          cases hwalk.symm.trans hno
        cases outcome with
        | missing => exact absurd rfl hne
        | filled filled => simp [hwalk]
        | undefined => exact absurd rfl hdefined
      | false =>
        rw [hundefined.mpr ⟨_, rfl, hwalk⟩]
        simp [hwalk]

/-! ## The output -/

/-- What a check that says these messages ends with. -/
theorem checkFlvFile_of_run {content : Bytes} {info : FlvInfo N}
    {result : Option (MetadataOutcome N)} {messages : List (CheckMessage N)}
    (h : Says (checkContent info content) result messages) (hne : result ≠ some .undefined)
    (env : Environment) (opts : CheckOpts) :
    letI report := reportEnd opts ((reportStart env opts .init).sayAll opts messages)
    checkFlvFile env opts info (some content) =
      some (if 0 < report.errors then .errorInvalidFlvFile else .ok, report.output) := by
  rw [checkFlvFile, checkReport_of_run h hne, Option.map_some]

omit [Number64 N] in
theorem outcomeOf_ne (filled : Option (FlvInfo N)) : some (outcomeOf filled) ≠ some .undefined := by
  cases filled <;> simp [outcomeOf]

/-- The warning that is printed for one `info` and not for another is seen. -/
theorem not_ignoresInitialInfo {env : Environment} {opts : CheckOpts} {content : Bytes}
    {messages : List (CheckMessage N)} {size : CheckMessage N}
    {rest : FlvInfo N → List (CheckMessage N)}
    (h : Reaches content none messages size rest) (hquiet : opts.quiet = false)
    (hlevel : opts.checkLevel.code ≤ CheckLevel.warning.code) :
    ¬ IgnoresInitialInfo N env opts content := by
  rintro ⟨r, hsame⟩
  let info : FlvInfo N := FlvInfo.init (flvHeaderOfBytes [])
  let info' : FlvInfo N := { info with videoWidth := 1 }
  have hrest : rest info = rest info' := h.rest_plain _ _ rfl rfl
  have hshown : Displayed opts size := ⟨hquiet, by rwa [h.size_level]⟩
  have hrun : Says (checkContent info content) (some .missing)
      (messages ++ ([size] ++ rest info)) :=
    h.run info
  have hrun' : Says (checkContent info' content) (some .missing) (messages ++ ([] ++ rest info')) :=
    h.run info'
  have hfile := checkFlvFile_of_run hrun (outcomeOf_ne none) env opts
  have hfile' := checkFlvFile_of_run hrun' (outcomeOf_ne none) env opts
  have hout := congrArg (fun r => r.2.length)
    (Option.some.inj (hfile.symm.trans ((hsame info).trans ((hsame info').symm.trans hfile'))))
  simp only [output_reportEnd, output_sayAll, hquiet, hrest, List.filter_append,
    List.length_append, List.length_map, List.filter_cons, hshown, decide_true] at hout
  simp at hout

/-- The messages after the last one that is the same for any `info` are warnings and information. -/
theorem Reaches.below {content : Bytes} {messages : List (CheckMessage N)} {size : CheckMessage N}
    {rest : FlvInfo N → List (CheckMessage N)} (h : Reaches content none messages size rest)
    (info : FlvInfo N) :
    ∀ m ∈ (if info.videoWidth = 0 ∧ info.videoHeight = 0 then [size] else []) ++ rest info,
      m.level.code ≤ CheckLevel.warning.code := by
  intro m hm
  rcases List.mem_append.mp hm with hm | hm
  · split at hm
    · rw [List.mem_singleton.mp hm, h.size_level]
    · cases hm
  · rw [h.rest_level info m hm]
    exact Nat.zero_le _

/-- Without warnings and information it does not matter what `info` holds. -/
theorem Reaches.ignores {env : Environment} {opts : CheckOpts} {content : Bytes}
    {messages : List (CheckMessage N)} {size : CheckMessage N}
    {rest : FlvInfo N → List (CheckMessage N)} (h : Reaches content none messages size rest)
    (hunseen : opts.quiet = true ∨ CheckLevel.warning.code < opts.checkLevel.code) :
    IgnoresInitialInfo N env opts content := by
  let start : Report N := reportStart env opts .init
  have hstart : start.errors < 2 ^ 32 := by
    rw [errors_reportStart]
    exact Nat.two_pow_pos 32
  rcases hunseen with hquiet | hlevel
  · refine ⟨(if 0 < messages.countP (Counted opts ·) % 2 ^ 32 then .errorInvalidFlvFile else .ok,
      start.output), fun info => ?_⟩
    have hcounted : ((if info.videoWidth = 0 ∧ info.videoHeight = 0 then [size] else []) ++
        rest info).countP (Counted opts ·) = 0 :=
      List.countP_eq_zero.mpr fun m hm hcounted => by
        have hle := h.below info m hm
        rcases (of_decide_eq_true hcounted).1 with herror | herror <;>
          · rw [herror] at hle
            exact absurd hle (by decide)
    have hdisplayed : ∀ messages : List (CheckMessage N), messages.filter (Displayed opts ·) = [] :=
      fun messages => List.filter_eq_nil_iff.mpr fun m _ hshown =>
        Bool.false_ne_true ((of_decide_eq_true hshown).1.symm.trans hquiet)
    rw [checkFlvFile_of_run (h.run info) (outcomeOf_ne none), errors_reportEnd,
      errors_sayAll opts hstart, errors_reportStart, Nat.zero_add, Option.getD_none,
      List.countP_append, hcounted, Nat.add_zero, output_reportEnd, output_sayAll, hdisplayed,
      if_pos hquiet, List.map_nil, List.append_nil, List.append_nil]
  · let report : Report N := reportEnd opts (start.sayAll opts messages)
    refine ⟨(if 0 < report.errors then .errorInvalidFlvFile else .ok, report.output),
      fun info => ?_⟩
    have hbelow := fun (report : Report N) info => sayAll_of_below report fun m hm =>
      Nat.not_le.mpr (Nat.lt_of_le_of_lt (h.below info m hm) hlevel)
    rw [checkFlvFile_of_run (h.run info) (outcomeOf_ne none), Report.sayAll_append,
      Option.getD_none, hbelow]

/-- A check that says the same whatever `info` holds at first. -/
theorem ignores_of_run {content : Bytes} {result : Option (MetadataOutcome N)}
    {messages : List (CheckMessage N)}
    (h : ∀ info : FlvInfo N, Says (checkContent info content) result messages)
    (hne : result ≠ some .undefined) (env : Environment) (opts : CheckOpts) :
    IgnoresInitialInfo N env opts content :=
  ⟨_, fun info => checkFlvFile_of_run (h info) hne env opts⟩

/-- The global checks read an `info` that has been filled from the file exactly when a fatal
condition is met before them or there is an `onMetaData` event whose data the program can follow.
What a check prints and its status are defined and do not depend on what `info` holds at first in
these cases, or when there is no event and neither warnings nor information are displayed. -/
theorem checkFlvFile_filled_iff (env : Environment) (opts : CheckOpts) (info : FlvInfo N)
    (content : Bytes) :
    (ReadsFilledInfo N env opts content ↔ FindsOnMetadata env opts info content) ∧
    (IgnoresInitialInfo N env opts content ↔ FindsOnMetadata env opts info content ∨
      WalkDefined env opts info content ∧
        (opts.quiet = true ∨ CheckLevel.warning.code < opts.checkLevel.code)) := by
  obtain ⟨result, offsets, messages, hbefore, hlast, hresult, hkeys⟩ :=
    checkBefore_run (N := N) content
  obtain ⟨result', errors, -, hall⟩ := metConditions_errors (N := N) content
  have hfinds := findsOnMetadata_iff env opts info hbefore hlast (fun r hr => (hresult r hr).1)
    (hkeys env opts)
  obtain ⟨-, hsaid, hdefined⟩ := hall info
  have hsame : ∀ {result'' : Option (MetadataOutcome N)} {messages'' : List (CheckMessage N)},
      Says (checkContent info content) result'' messages'' → result' = result'' := fun h =>
    congrArg Prod.fst ((hsaid opts .init).symm.trans (h opts .init))
  have hdefined' := hdefined env opts
  rw [hfinds]
  constructor
  · constructor
    · intro hreads st outcome hrun
      rw [hrun] at hbefore
      obtain ⟨filled, hfilled, -⟩ := hreads st outcome _ (hbefore opts _)
      exact ⟨filled, hfilled⟩
    · intro hfilled st outcome report hrun
      have hrun' : result = some (st, outcome) :=
        congrArg Prod.fst ((hbefore opts _).symm.trans hrun)
      obtain ⟨filled, rfl⟩ := hfilled st outcome hrun'
      exact ⟨filled, rfl, (hresult _ hrun').1.filled filled rfl⟩
  · rcases checkContent_cases hbefore with
      ⟨rfl, hnone⟩ | ⟨st, rfl, hundefined⟩ | ⟨st, filled, size, rest, rfl, hreaches⟩
    · exact iff_of_true (ignores_of_run hnone (by simp) env opts)
        (Or.inl fun st outcome h => by cases h)
    · rw [hsame (hundefined info)] at hdefined'
      refine iff_of_false ?_ ?_
      · rintro ⟨r, hall⟩
        have hfile := hall info
        rw [checkFlvFile, checkReport_undefined (hundefined info)] at hfile
        cases hfile
      · rintro (h | h)
        · obtain ⟨filled, hfilled⟩ := h st .undefined rfl
          cases hfilled
        · exact hdefined'.mp rfl h.1
    · cases filled with
      | some filled =>
        have hrun : ∀ info, Says (checkContent info content) (some (.filled filled))
            (messages ++ ((if filled.videoWidth = 0 ∧ filled.videoHeight = 0 then [size] else []) ++
              rest filled)) := hreaches.run
        refine iff_of_true ?_ (Or.inl fun st outcome h => ?_)
        · exact ignores_of_run hrun (outcomeOf_ne (some filled)) env opts
        · cases h
          exact ⟨filled, rfl⟩
      | none =>
        rw [hsame (hreaches.run info)] at hdefined'
        have hwalk : WalkDefined env opts info content :=
          not_not.mp fun h => outcomeOf_ne none (hdefined'.mpr h)
        have hno : ¬ ∀ (st' : CheckLocals N) (outcome : MetadataOutcome N),
            some (st, outcomeOf none) = some (st', outcome) →
              ∃ filled, outcome = .filled filled := by
          intro h
          obtain ⟨filled, hfilled⟩ := h st _ rfl
          cases hfilled
        rw [or_iff_right hno, and_iff_right hwalk]
        constructor
        · intro hignores
          by_contra hseen
          rw [not_or, Nat.not_lt] at hseen
          exact not_ignoresInitialInfo hreaches (Bool.eq_false_iff.mpr hseen.1) hseen.2 hignores
        · exact hreaches.ignores

omit [Number64 N] in
/-- A file without an `onMetaData` event: the warning about the size of the video depends on what
`info` holds. -/
theorem checkFlvFile_unfilled :
    letI := blankImage
    ¬ ∀ (env : Environment) (opts : CheckOpts) (content : Bytes),
      ReadsFilledInfo ℚ env opts content ∧ IgnoresInitialInfo ℚ env opts content := by
  let := blankImage
  intro h
  let info : FlvInfo ℚ := FlvInfo.init (flvHeaderOfBytes audioFile)
  obtain ⟨r, hsame⟩ := (h ⟨[], 0⟩ ⟨[], .warning, false, .raw⟩ audioFile).2
  have hlength := congrArg (Option.map fun r => r.2.length)
    ((hsame info).trans (hsame { info with videoWidth := 320 }).symm)
  revert hlength
  decide +kernel

end FlvMeta
