import FlvMeta.Check.Valid
import FlvMeta.Check.Verdict

/-!
# What the parts of a check judge

A part of the check `Judges` a condition when it prints an error exactly if the condition does not
hold. The rules follow the ways in which parts are put together; a fatal message needs nothing of
what would come behind it. The parts that compare the entries of `onMetaData` only warn, and so
judge nothing.
-/

namespace FlvMeta

open Stdio

variable {N : Type}

/-! ## Judging -/

/-- With any options and whatever the report is, `x` prints the same messages, with an error among
them unless `c`; if `c`, it does not jump to the end. A result has the property `Q`. -/
def Judges {α : Type} (x : CheckM N α) (c : Prop) (Q : α → Prop) : Prop :=
  ∃ result messages, Says x result messages ∧ (∀ a, result = some a → Q a) ∧
    ((∀ m ∈ messages, ¬ m.IsError) ↔ c) ∧ (c → result.isSome)

/-- A part that prints no errors. -/
def Quiet (x : CheckM N Unit) : Prop := Judges x True fun _ => True

namespace Judges

variable {α β : Type} {c d : Prop} {Q : α → Prop} {R : β → Prop}

theorem pure {a : α} (h : Q a) : Judges (Pure.pure a : CheckM N α) True Q :=
  ⟨some a, [], .pure a, fun _ heq => Option.some.inj heq ▸ h,
    iff_of_true (fun _ hm => by cases hm) trivial, fun _ => rfl⟩

/-- What is behind `x` may judge something else if `x` has printed an error. -/
theorem bind {x : CheckM N α} {f : α → CheckM N β} {e : α → Prop} (hx : Judges x c Q)
    (hf : ∀ a, Q a → Judges (f a) (e a) R) (he : ∀ a, Q a → c → (e a ↔ d)) :
    Judges (x >>= f) (c ∧ d) R := by
  obtain ⟨result, messages, hsaid, hQ, hjudged, hsome⟩ := hx
  cases result with
  | none =>
    have hno : ¬ c := fun h => Bool.false_ne_true (hsome h)
    refine ⟨none, messages, hsaid.bind_none, fun _ heq => (Option.some_ne_none _ heq.symm).elim, ?_,
      fun h => absurd h.1 hno⟩
    rw [hjudged]
    exact ⟨fun h => absurd h hno, fun h => h.1⟩
  | some a =>
    have ha := hQ a rfl
    obtain ⟨result, messages', hsaid', hR, hjudged', hsome'⟩ := hf a ha
    refine ⟨result, messages ++ messages', hsaid.bind hsaid', hR, ?_,
      fun h => hsome' ((he a ha h.1).mpr h.2)⟩
    rw [List.forall_mem_append, hjudged, hjudged']
    exact and_congr_right (he a ha)

theorem bindSame {x : CheckM N α} {f : α → CheckM N β} (hx : Judges x c Q)
    (hf : ∀ a, Q a → Judges (f a) d R) : Judges (x >>= f) (c ∧ d) R :=
  bind hx hf fun _ _ _ => Iff.rfl

theorem congr {x : CheckM N α} (hx : Judges x c Q) (h : c ↔ d) : Judges x d Q :=
  propext h ▸ hx

theorem weaken {Q' : α → Prop} {x : CheckM N α} (hx : Judges x c Q) (h : ∀ a, Q a → Q' a) :
    Judges x c Q' := by
  obtain ⟨result, messages, hsaid, hQ, hjudged⟩ := hx
  exact ⟨result, messages, hsaid, fun a heq => h a (hQ a heq), hjudged⟩

/-- What is known of the result in another way. -/
theorem andSpeaks {Q' : α → Prop} {x : CheckM N α} (hx : Judges x c Q) (h : Speaks x Q') :
    Judges x c fun a => Q a ∧ Q' a := by
  obtain ⟨result, messages, hsaid, hQ, hjudged⟩ := hx
  obtain ⟨result', messages', hsaid', hQ', -⟩ := h
  have hsame : result = result' :=
    congrArg Prod.fst ((hsaid everything .init).symm.trans (hsaid' everything .init))
  subst hsame
  exact ⟨result, messages, hsaid, fun a heq => ⟨hQ a heq, hQ' a heq⟩, hjudged⟩

theorem ite {p : Prop} [Decidable p] {x y : CheckM N α} {c' : Prop} (hx : p → Judges x c Q)
    (hy : ¬ p → Judges y c' Q) : Judges (if p then x else y) ((p → c) ∧ (¬ p → c')) Q := by
  split
  · rename_i hp
    exact (hx hp).congr ⟨fun h => ⟨fun _ => h, fun hno => absurd hp hno⟩, fun h => h.1 hp⟩
  · rename_i hp
    exact (hy hp).congr ⟨fun h => ⟨fun hyes => absurd hyes hp, fun _ => h⟩, fun h => h.2 hp⟩

/-- Both ways judge the same. -/
theorem iteSame {p : Prop} [Decidable p] {x y : CheckM N α} (hx : p → Judges x c Q)
    (hy : ¬ p → Judges y c Q) : Judges (if p then x else y) c Q := by
  split
  · exact hx ‹_›
  · exact hy ‹_›

/-- After a fatal message there is no result. -/
theorem fatalEnd (code : CheckCode) (offset : Nat) (message : List (Printed N)) :
    Judges (FlvMeta.fatalEnd code offset message : CheckM N α) False fun _ => False :=
  ⟨none, _, .fatalEnd code offset message, fun _ heq => (Option.some_ne_none _ heq.symm).elim,
    iff_of_false (fun h => h _ List.mem_cons_self (Or.inr rfl)) id, fun h => h.elim⟩

theorem printError (code : CheckCode) (offset : Nat) (message : List (Printed N)) :
    Judges (FlvMeta.printError code offset message) False fun _ => True :=
  ⟨some (), _, .printError code offset message, fun _ _ => trivial,
    iff_of_false (fun h => h _ List.mem_cons_self (Or.inl rfl)) id, fun h => h.elim⟩

/-- An error on a condition judges its negation. -/
theorem error {p : Prop} [Decidable p] (code : CheckCode) (offset : Nat)
    (message : List (Printed N)) :
    Judges (FlvMeta.onlyIf p (FlvMeta.printError code offset message)) (¬ p) fun _ => True :=
  (ite (fun _ => printError ..) fun _ => pure trivial).congr
    ⟨fun h => h.1, fun h => ⟨h, fun _ => trivial⟩⟩

end Judges

namespace Quiet

variable {x y : CheckM N Unit}

theorem pure : Quiet (Pure.pure () : CheckM N Unit) := Judges.pure trivial

theorem printInfo (code : CheckCode) (offset : Nat) (message : List (Printed N)) :
    Quiet (FlvMeta.printInfo code offset message) :=
  ⟨some (), _, .printInfo code offset message, fun _ _ => trivial,
    iff_of_true (fun m hm => by rw [List.mem_singleton.mp hm]; simp [CheckMessage.IsError]) trivial,
    fun _ => rfl⟩

theorem printWarning (code : CheckCode) (offset : Nat) (message : List (Printed N)) :
    Quiet (FlvMeta.printWarning code offset message) :=
  ⟨some (), _, .printWarning code offset message, fun _ _ => trivial,
    iff_of_true (fun m hm => by rw [List.mem_singleton.mp hm]; simp [CheckMessage.IsError]) trivial,
    fun _ => rfl⟩

theorem ite {p : Prop} [Decidable p] (hx : Quiet x) (hy : Quiet y) :
    Quiet (if p then x else y) := .iteSame (fun _ => hx) fun _ => hy

theorem onlyIf {p : Prop} [Decidable p] (hx : Quiet x) : Quiet (FlvMeta.onlyIf p x) :=
  ite hx pure

theorem warning {p : Prop} [Decidable p] (code : CheckCode) (offset : Nat)
    (message : List (Printed N)) :
    Quiet (FlvMeta.onlyIf p (FlvMeta.printWarning code offset message)) :=
  onlyIf (printWarning ..)

/-- A part that prints no errors changes nothing for what follows. -/
theorem followedBy {β : Type} {c : Prop} {R : β → Prop} {f : Unit → CheckM N β} (hx : Quiet x)
    (hf : Judges (f ()) c R) : Judges (x >>= f) c R :=
  (Judges.bindSame hx fun _ _ => hf).congr ⟨fun h => h.2, fun h => ⟨trivial, h⟩⟩

theorem seq (hx : Quiet x) (hy : Quiet y) : Quiet (do x; y) := followedBy hx hy

end Quiet

/-! ## The entries of onMetaData -/

section

variable {entry : MetadataEntry N} {x : CheckM N Unit}

theorem quiet_warnEntry (entry : MetadataEntry N) (code : CheckCode) (message : List (Printed N)) :
    Quiet (warnEntry entry code message) := .printWarning ..

theorem quiet_checkField (field : String) (expected : AmfType) (hx : Quiet x) :
    Quiet (checkField field expected entry x) := .onlyIf (.ite hx (quiet_warnEntry ..))

theorem quiet_checkNeeded (field without : String) (code : CheckCode) (present : Bool)
    (hx : Quiet x) : Quiet (checkNeeded field without code present entry x) :=
  .ite hx (quiet_warnEntry ..)

theorem quiet_checkBooleanValue (value : Bool) (message : List (Printed N))
    (entry : MetadataEntry N) : Quiet (checkBooleanValue value message entry) :=
  .onlyIf (quiet_warnEntry ..)

theorem quiet_checkBoolean (field : String) (value : Bool) (entry : MetadataEntry N) :
    Quiet (checkBoolean field value entry) := quiet_checkField _ _ (quiet_checkBooleanValue ..)

theorem quiet_checkHasMetadata (entry : MetadataEntry N) : Quiet (checkHasMetadata entry) :=
  quiet_checkField _ _ (.onlyIf (quiet_warnEntry ..))

theorem quiet_checkStereo (info : FlvInfo N) (entry : MetadataEntry N) :
    Quiet (checkStereo info entry) :=
  quiet_checkField _ _ (quiet_checkNeeded _ _ _ _ (quiet_checkBooleanValue ..))

variable [Number64 N]

theorem quiet_checkNumberValue (field : String) (value : N) (entry : MetadataEntry N) :
    Quiet (checkNumberValue field value entry) := .onlyIf (quiet_warnEntry ..)

theorem quiet_checkNumber (field : String) (value : N) (entry : MetadataEntry N) :
    Quiet (checkNumber field value entry) := quiet_checkField _ _ (quiet_checkNumberValue ..)

theorem quiet_checkVideoNumber (field : String) (value : N) (info : FlvInfo N)
    (entry : MetadataEntry N) : Quiet (checkVideoNumber field value info entry) :=
  quiet_checkField _ _ (quiet_checkNeeded _ _ _ _ (quiet_checkNumberValue ..))

theorem quiet_checkAudioNumber (field : String) (value : N) (info : FlvInfo N)
    (entry : MetadataEntry N) : Quiet (checkAudioNumber field value info entry) :=
  quiet_checkField _ _ (quiet_checkNeeded _ _ _ _ (quiet_checkNumberValue ..))

theorem quiet_checkDimension (field : String) (value : N) (info : FlvInfo N)
    (entry : MetadataEntry N) : Quiet (checkDimension field value info entry) :=
  quiet_checkField _ _ (quiet_checkNeeded _ _ _ _ (.onlyIf (quiet_warnEntry ..)))

theorem quiet_checkAudiosamplerate (info : FlvInfo N) (entry : MetadataEntry N) :
    Quiet (checkAudiosamplerate info entry) :=
  quiet_checkField _ _ (quiet_checkNeeded _ _ _ _ (.onlyIf (quiet_warnEntry ..)))

theorem quiet_checkAudiodelay (info : FlvInfo N) (entry : MetadataEntry N) :
    Quiet (checkAudiodelay info entry) :=
  quiet_checkField _ _ (quiet_checkNeeded _ _ _ _ (quiet_checkNumberValue ..))

theorem judges_checkKeyframeTime (entry : MetadataEntry N) (time : N) (fileTime : AmfData N)
    (last : Option N) : Judges (checkKeyframeTime entry time fileTime last) True fun _ => True :=
  .iteSame (fun _ => (quiet_warnEntry ..).followedBy (.pure trivial)) fun _ =>
    (Quiet.onlyIf (quiet_warnEntry ..)).followedBy
      ((Quiet.onlyIf (quiet_warnEntry ..)).followedBy (.pure trivial))

theorem quiet_checkKeyframePosition (entry : MetadataEntry N) (position : N)
    (filePosition : AmfData N) : Quiet (checkKeyframePosition entry position filePosition) :=
  .ite (quiet_warnEntry ..) (.onlyIf (quiet_warnEntry ..))

theorem quiet_checkKeyframeLists (entry : MetadataEntry N) (last : Option N)
    (times positions : List N) (fileTimes filePositions : List (AmfData N)) :
    Quiet (checkKeyframeLists entry last times positions fileTimes filePositions) := by
  induction last, times, positions, fileTimes, filePositions using
    checkKeyframeLists.induct with
  | case1 last time times position positions fileTime fileTimes filePosition filePositions ih =>
    rw [checkKeyframeLists]
    refine (Judges.bindSame (judges_checkKeyframeTime ..) fun last _ => ?_).congr (and_self_iff)
    exact (quiet_checkKeyframePosition ..).followedBy (ih last)
  | case2 last times positions fileTimes filePositions h =>
    rw [checkKeyframeLists]
    · exact .pure
    · exact h

theorem quiet_checkKeyframeArrays (info : FlvInfo N) (fileTimes filePositions : AmfData N)
    (entry : MetadataEntry N) : Quiet (checkKeyframeArrays info fileTimes filePositions entry) := by
  refine .seq (.onlyIf (quiet_warnEntry ..)) (.seq (.onlyIf (quiet_warnEntry ..)) ?_)
  exact .onlyIf (.ite (quiet_warnEntry ..) (quiet_checkKeyframeLists ..))

theorem quiet_checkKeyframes (info : FlvInfo N) (entry : MetadataEntry N) :
    Quiet (checkKeyframes info entry) := by
  refine .onlyIf (.ite ?_ (quiet_warnEntry ..))
  refine .seq (.onlyIf (quiet_warnEntry ..)) (.seq (.onlyIf (quiet_warnEntry ..)) ?_)
  exact .onlyIf (quiet_checkKeyframeArrays ..)

/-- An entry is no error, and is recorded if it is the width or the height. -/
theorem judges_checkMetadataEntry (ctxt : MetadataContext N) (name data : AmfData N)
    (found : FoundSize) :
    Judges (checkMetadataEntry ctxt name data found) True fun found' =>
      found' =
        ⟨found.haveWidth || findsDimension "width" ctxt.info ⟨ctxt.offset, name, data⟩,
          found.haveHeight || findsDimension "height" ctxt.info ⟨ctxt.offset, name, data⟩⟩ := by
  refine (quiet_checkHasMetadata _).followedBy ?_
  refine (quiet_checkBoolean ..).followedBy ((quiet_checkBoolean ..).followedBy ?_)
  -- duration, lasttimestamp and lastkeyframetimestamp
  refine (quiet_checkNumber ..).followedBy ((quiet_checkNumber ..).followedBy ?_)
  refine (quiet_checkNumber ..).followedBy ?_
  refine (quiet_checkDimension ..).followedBy ((quiet_checkDimension ..).followedBy ?_)
  refine (quiet_checkVideoNumber ..).followedBy ((quiet_checkVideoNumber ..).followedBy ?_)
  refine (quiet_checkAudioNumber ..).followedBy ((quiet_checkAudiosamplerate ..).followedBy ?_)
  refine (quiet_checkAudioNumber ..).followedBy ((quiet_checkStereo ..).followedBy ?_)
  -- the sizes
  refine (quiet_checkNumber ..).followedBy ((quiet_checkVideoNumber ..).followedBy ?_)
  refine (quiet_checkAudioNumber ..).followedBy ((quiet_checkNumber ..).followedBy ?_)
  refine (quiet_checkAudioNumber ..).followedBy ((quiet_checkVideoNumber ..).followedBy ?_)
  refine (quiet_checkAudiodelay ..).followedBy ((quiet_checkBoolean ..).followedBy ?_)
  exact (quiet_checkBoolean ..).followedBy ((quiet_checkKeyframes ..).followedBy (.pure rfl))

/-- The entries are no errors, and the width and the height are found if they are numbers. -/
theorem judges_checkMetadataEntries (ctxt : MetadataContext N) (list : List (AmfData N))
    (found : FoundSize) :
    Judges (checkMetadataEntries ctxt list found) True fun found' =>
      found' = if namesAreStrings list then
        some ⟨found.haveWidth || (ctxt.info.haveVideo && hasNumber "width" list),
          found.haveHeight || (ctxt.info.haveVideo && hasNumber "height" list)⟩ else none := by
  have hnull : ∀ field name, findsDimension field ctxt.info ⟨ctxt.offset, name, .nullPtr⟩ =
      false := by
    intro field name
    have hcode : (amfDataGetType (.nullPtr : AmfData N) == AmfType.number.code) = false := rfl
    simp [findsDimension, hcode]
  induction list, found using checkMetadataEntries.induct with
  | case1 found =>
    refine .pure ?_
    simp [hasNumber, namesAreStrings]
  | case2 found name hname =>
    rw [checkMetadataEntries, if_pos hname]
    refine (Judges.bindSame (d := True) (judges_checkMetadataEntry ..) fun found' hfound =>
      .pure ?_).congr and_self_iff
    rw [hfound, hnull, hnull]
    simp [hasNumber, namesAreStrings, hname]
  | case3 found name hname =>
    rw [checkMetadataEntries, if_neg hname]
    refine .pure ?_
    simp [namesAreStrings, hname]
  | case4 found name data rest hname ih =>
    rw [checkMetadataEntries, if_pos hname]
    refine (Judges.bindSame (judges_checkMetadataEntry ..) fun found' hfound => ?_).congr
      and_self_iff
    refine (ih found').weaken fun found'' hfound'' => ?_
    rw [hfound'', hfound, namesAreStrings, hname, Bool.true_and]
    simp only [findsDimension, hasNumber]
    congr 3
    all_goals
      cases ctxt.info.haveVideo with
      | true => simp [Bool.or_assoc]
      | false => simp
  | case5 found name data rest hname =>
    rw [checkMetadataEntries, if_neg hname]
    refine .pure ?_
    simp [namesAreStrings, hname]

/-- The loop over `onMetaData` finds the width and the height, or is not defined. -/
theorem judges_checkOnMetadataEntries (ctxt : MetadataContext N) :
    Judges (checkOnMetadataEntries ctxt) True fun found =>
      found = if walkable ctxt.onMetadata then
        some ⟨ctxt.info.haveVideo && hasNumber "width" ctxt.onMetadata.listData,
          ctxt.info.haveVideo && hasNumber "height" ctxt.onMetadata.listData⟩ else none := by
  have hlist : ∀ nodes, walkedNodes ctxt.onMetadata = some nodes →
      ctxt.onMetadata.listData = nodes := by
    intro nodes h
    cases hdata : ctxt.onMetadata <;> rw [hdata] at h <;> cases h <;> rfl
  unfold checkOnMetadataEntries walkable
  cases hnodes : walkedNodes ctxt.onMetadata with
  | none => exact .pure rfl
  | some nodes =>
    refine (judges_checkMetadataEntries ..).weaken fun found hfound => ?_
    rw [hfound, hlist nodes hnodes]
    simp only [Bool.false_or]
    rfl

end

end FlvMeta
