import FlvMeta.Amf.Derivation

/-!
# Two runs of the reader

The reader makes the same of two sources as long as they deliver the same bytes. If the first runs
dry, its run ends with an end of file, unless this is swallowed by the empty name that closes an
associative array; the other run then closes it as well, whatever it reads there. So a run that
does not end with an end of file is followed by every run that a `Simulation` relates to it
(`agrees_amfDataRead`).
-/

namespace FlvMeta

open Endian Stdio ByteSource

variable {σ τ N : Type} [NumberImage N]

/-! ## Equations of the loops -/

section

variable (src : ByteSource σ)

/-- What follows the byte of the type. -/
def amfTypeRead (fuel : Nat) (type : UInt8) (s : σ) : Option (AmfData N × σ) :=
  match AmfType.ofCode type with
  | some .object => amfPairsRead src .object fuel [] s
  | some .associativeArray =>
    if (src.read 4 s).1.length < 4 then some (amfDataError .eof, (src.read 4 s).2)
    else amfPairsRead src .associativeArray fuel [] (src.read 4 s).2
  | some .array =>
    if (src.read 4 s).1.length < 4 then some (amfDataError .eof, (src.read 4 s).2)
    else amfArrayRead src fuel (swapUint32 (ofLE (src.read 4 s).1)) [] (src.read 4 s).2
  | some t => amfScalarRead src t s
  | none => some (amfDataError .unknownType, s)

theorem amfDataRead_succ (fuel : Nat) (s : σ) :
    (amfDataRead src (fuel + 1) s : Option (AmfData N × σ)) =
      if (src.read 1 s).1.length < 1 then some (amfDataError .eof, (src.read 1 s).2)
      else amfTypeRead src fuel ((src.read 1 s).1.getD 0 0) (src.read 1 s).2 := by
  rw [amfDataRead]
  cases src.read 1 s with
  | mk bs s₁ =>
    cases bs with
    | nil => rfl
    | cons b bs =>
      have hb : (b :: bs).getD 0 0 = b := rfl
      rw [if_neg (by simp), hb, amfTypeRead]
      dsimp only
      cases AmfType.ofCode b with
      | none => rfl
      | some t =>
        cases t with
        | _ => rfl

theorem amfArrayRead_succ (fuel n : Nat) (list : List (AmfData N)) (s : σ) :
    amfArrayRead src (fuel + 1) (n + 1) list s =
      (amfDataRead src fuel s).bind fun r =>
        if amfDataGetErrorCode r.1 ≠ .ok then
          some (amfDataError (amfDataGetErrorCode r.1), r.2)
        else amfArrayRead src fuel n (list ++ [r.1]) r.2 := by
  rw [amfArrayRead]
  cases (amfDataRead src fuel s : Option (AmfData N × σ)) with
  | none => rfl
  | some r =>
    obtain ⟨element, s₁⟩ := r
    dsimp only [Option.bind_some]
    by_cases hok : amfDataGetErrorCode element ≠ .ok
    · rw [if_pos hok, if_pos hok]
    · rw [if_neg hok, if_neg hok]
      simp only [amfListPush, isNull_of_ok (not_not.mp hok), Bool.false_eq_true, if_false]

/-- What follows a name and an element, in both loops over names and values. -/
def amfPairsStep (kind : PairsKind) (fuel : Nat) (list : List (AmfData N)) (name : AmfData N)
    (r : AmfData N × σ) : Option (AmfData N × σ) :=
  if kind.Stops name (amfDataGetErrorCode r.1) then some (kind.build list, r.2)
  else if amfDataGetErrorCode r.1 ≠ .ok then some (amfDataError (amfDataGetErrorCode r.1), r.2)
  else amfPairsRead src kind fuel
    (list ++ [amfStr (cString (amfStringGetBytes name)), r.1]) r.2

theorem amfPairsRead_succ (kind : PairsKind) (fuel : Nat) (list : List (AmfData N)) (s : σ) :
    amfPairsRead src kind (fuel + 1) list s =
      if amfDataGetErrorCode (amfStringRead src s : AmfData N × σ).1 ≠ .ok then
        some (amfDataError (amfDataGetErrorCode (amfStringRead src s : AmfData N × σ).1),
          (amfStringRead src s : AmfData N × σ).2)
      else (amfDataRead src fuel (amfStringRead src s : AmfData N × σ).2).bind
        (amfPairsStep src kind fuel list (amfStringRead src s : AmfData N × σ).1) := by
  have hpush : ∀ {element : AmfData N}, ¬ amfDataGetErrorCode element ≠ .ok →
      element.isNull = false := fun hok => isNull_of_ok (not_not.mp hok)
  cases kind with
  | object =>
    rw [amfPairsRead, amfObjectRead]
    dsimp only
    by_cases hname : amfDataGetErrorCode (amfStringRead src s : AmfData N × σ).1 ≠ .ok
    · rw [if_pos hname, if_pos hname]
    · rw [if_neg hname, if_neg hname]
      cases (amfDataRead src fuel (amfStringRead src s : AmfData N × σ).2 :
        Option (AmfData N × σ)) with
      | none => rfl
      | some r =>
        obtain ⟨element, s₂⟩ := r
        dsimp only [Option.bind_some, amfPairsStep]
        by_cases hstop : amfDataGetErrorCode element = .endTag ∨
          amfDataGetErrorCode element = .unknownType
        · rw [if_pos hstop, if_pos (.inr hstop)]
          rfl
        · have hgo : ¬ PairsKind.object.Stops (amfStringRead src s : AmfData N × σ).1
              (amfDataGetErrorCode element) := by
            rintro (⟨hkind, -⟩ | hs)
            · cases hkind
            · exact hstop hs
          rw [if_neg hstop, if_neg hgo]
          by_cases hok : amfDataGetErrorCode element ≠ .ok
          · rw [if_pos hok, if_pos hok]
          · rw [if_neg hok, if_neg hok, amfObjectAdd_eq rfl (hpush hok),
              if_neg (by simp [hpush hok])]
            rfl
  | associativeArray =>
    rw [amfPairsRead, amfAssociativeArrayRead]
    dsimp only
    by_cases hname : amfDataGetErrorCode (amfStringRead src s : AmfData N × σ).1 ≠ .ok
    · rw [if_pos hname, if_pos hname]
    · rw [if_neg hname, if_neg hname]
      cases (amfDataRead src fuel (amfStringRead src s : AmfData N × σ).2 :
        Option (AmfData N × σ)) with
      | none => rfl
      | some r =>
        obtain ⟨element, s₂⟩ := r
        dsimp only [Option.bind_some, amfPairsStep]
        by_cases hstop : amfStringGetSize (amfStringRead src s : AmfData N × σ).1 = 0 ∨
          amfDataGetErrorCode element = .endTag ∨ amfDataGetErrorCode element = .unknownType
        · have hclose : PairsKind.associativeArray.Stops (amfStringRead src s : AmfData N × σ).1
              (amfDataGetErrorCode element) := hstop.imp_left fun hsize => ⟨rfl, hsize⟩
          rw [if_pos hstop, if_pos hclose]
          rfl
        · have hgo : ¬ PairsKind.associativeArray.Stops (amfStringRead src s : AmfData N × σ).1
              (amfDataGetErrorCode element) := fun hs =>
            hstop (hs.imp_left fun hsize => hsize.2)
          rw [if_neg hstop, if_neg hgo]
          by_cases hok : amfDataGetErrorCode element ≠ .ok
          · rw [if_pos hok, if_pos hok]
          · rw [if_neg hok, if_neg hok, amfObjectAdd_eq rfl (hpush hok),
              if_neg (by simp [hpush hok])]
            rfl

/-- What follows the length of a string. -/
def amfStringBytesRead (strsize : Bytes) (s : σ) : AmfData N × σ :=
  let size := swapUint16 (ofLE strsize)
  if size = 0 then (amfStringNew [] 0, s)
  else if (src.read size s).1.length = size then
    (amfStringNew (src.read size s).1 (UInt16.ofNat size), (src.read size s).2)
  else (amfDataError .eof, (src.read size s).2)

omit [NumberImage N] in
theorem amfStringRead_eq (s : σ) :
    (amfStringRead src s : AmfData N × σ) =
      if (src.read 2 s).1.length = 2 then amfStringBytesRead src (src.read 2 s).1 (src.read 2 s).2
      else (amfDataError .eof, (src.read 2 s).2) := by
  have hle := src.length_read_le 2 s
  rw [amfStringRead]
  dsimp only
  by_cases hlen : (src.read 2 s).1.length = 2
  · rw [if_neg (by omega), if_pos hlen]
    rfl
  · rw [if_pos (by omega), if_neg hlen]

/-! ## What every read keeps -/

variable {src} {P : σ → Prop}

omit [NumberImage N] in
theorem preserves_amfStringRead (hP : ∀ n s, P s → P (src.read n s).2) {s : σ} (h : P s) :
    P (amfStringRead src s : AmfData N × σ).2 := by
  unfold amfStringRead
  dsimp only
  split
  · exact hP 2 s h
  · split
    · exact hP 2 s h
    · split
      · exact hP _ _ (hP 2 s h)
      · exact hP _ _ (hP 2 s h)

theorem preserves_amfScalarRead (hP : ∀ n s, P s → P (src.read n s).2) {t : AmfType} {s s' : σ}
    {d : AmfData N} (hread : amfScalarRead src t s = some (d, s')) (h : P s) : P s' := by
  have hnumber : P (amfNumberRead src s : AmfData N × σ).2 := by
    unfold amfNumberRead
    dsimp only
    split
    · exact hP 8 s h
    · exact hP 8 s h
  have hboolean : P (amfBooleanRead src s : AmfData N × σ).2 := by
    unfold amfBooleanRead
    dsimp only
    split
    · exact hP 1 s h
    · exact hP 1 s h
  have hdate : P (amfDateRead src s : AmfData N × σ).2 := by
    unfold amfDateRead
    dsimp only
    split
    · split
      · exact hP 2 _ (hP 8 s h)
      · exact hP 2 _ (hP 8 s h)
    · exact hP 8 s h
  cases t with
  | number =>
    rw [amfScalarRead, Option.some.injEq] at hread
    rwa [hread] at hnumber
  | boolean =>
    rw [amfScalarRead, Option.some.injEq] at hread
    rwa [hread] at hboolean
  | string =>
    rw [amfScalarRead, Option.some.injEq] at hread
    have hstring := preserves_amfStringRead (N := N) hP h
    rwa [hread] at hstring
  | date =>
    rw [amfScalarRead, Option.some.injEq] at hread
    rwa [hread] at hdate
  | null | undefined | xml | «class» | endTag =>
    cases hread
    exact h
  | object | associativeArray | array => cases hread

theorem Reads.preserves (hP : ∀ n s, P s → P (src.read n s).2) {frame : Frame N} {s s' : σ}
    {d : AmfData N} (h : Reads src frame s d s') (hs : P s) : P s' := by
  have hread : ∀ {n s bs s'}, src.read n s = (bs, s') → P s → P s' := by
    intro n s bs s' heq hs
    have hkept := hP n s hs
    rwa [heq] at hkept
  have hname : ∀ {s} {name : AmfData N} {s'}, amfStringRead src s = (name, s') → P s → P s' := by
    intro s name s' heq hs
    have hkept := preserves_amfStringRead (N := N) hP hs
    rwa [heq] at hkept
  induction h with
  | eof heq => exact hread heq hs
  | unknown heq _ => exact hread heq hs
  | scalar heq _ hscalar => exact preserves_amfScalarRead hP hscalar (hread heq hs)
  | noSize heq _ => exact hP 4 _ (hread heq hs)
  | object heq _ ih => exact ih (hread heq hs)
  | associativeArray heq _ _ ih => exact ih (hP 4 _ (hread heq hs))
  | array heq _ _ _ ih => exact ih (hP 4 _ (hread heq hs))
  | noName _ => exact preserves_amfStringRead hP hs
  | close heq _ _ _ ih => exact ih (hname heq hs)
  | badValue heq _ _ _ ih => exact ih (hname heq hs)
  | entry heq _ _ _ _ _ ih ih' => exact ih' (ih (hname heq hs))
  | done => exact hs
  | badElement _ _ ih => exact ih hs
  | element _ _ _ ih ih' => exact ih' (ih hs)

theorem preserves_amfTypeRead (hP : ∀ n s, P s → P (src.read n s).2) {fuel : Nat} {type : UInt8}
    {s s' : σ} {d : AmfData N} (h : amfTypeRead src fuel type s = some (d, s')) (hs : P s) :
    P s' := by
  unfold amfTypeRead at h
  cases htype : AmfType.ofCode type with
  | none =>
    simp only [htype] at h
    cases h
    exact hs
  | some t =>
    simp only [htype] at h
    cases t with
    | object => exact ((derives src fuel).pairs h).preserves hP hs
    | associativeArray =>
      dsimp only at h
      split at h
      · cases h
        exact hP 4 s hs
      · exact ((derives src fuel).pairs h).preserves hP (hP 4 s hs)
    | array =>
      dsimp only at h
      split at h
      · cases h
        exact hP 4 s hs
      · exact ((derives src fuel).array h).preserves hP (hP 4 s hs)
    | _ => exact preserves_amfScalarRead hP h hs

end

/-! ## Simulation -/

section

variable {src₁ : ByteSource σ} {src₂ : ByteSource τ} (sim : Simulation src₁ src₂)

/-- The second of two runs returns what the first one does, unless that ends with an end of file on
a dry source, or badly. -/
def Agrees (d : AmfData N) (s : σ) (e : AmfData N) (t : τ) : Prop :=
  ¬ sim.Bad s → (e = d ∧ sim.Rel s t) ∨ (amfDataGetErrorCode d = .eof ∧ sim.Dry s)

omit [NumberImage N] in
theorem Agrees.ok {sim : Simulation src₁ src₂} {d e : AmfData N} {s : σ} {t : τ}
    (h : Agrees sim d s e t) (hbad : ¬ sim.Bad s) (hcode : amfDataGetErrorCode d = .ok) :
    e = d ∧ sim.Rel s t := by
  rcases h hbad with hsame | ⟨heof, -⟩
  · exact hsame
  · rw [hcode] at heof
    cases heof

omit [NumberImage N] in
/-- A read in front of a value. -/
theorem agrees_read {n : Nat} (hn : 0 < n) {s : σ} {t : τ} (hrel : sim.Rel s t)
    {d : Bytes → σ → AmfData N × σ} {e : Bytes → τ → AmfData N × τ}
    (hbad : ∀ bs s, sim.Bad s → sim.Bad (d bs s).2)
    (h : ∀ bs s t, bs.length = n → sim.Rel s t →
      Agrees sim (d bs s).1 (d bs s).2 (e bs t).1 (e bs t).2) :
    let r := if (src₁.read n s).1.length = n then d (src₁.read n s).1 (src₁.read n s).2
      else (amfDataError .eof, (src₁.read n s).2)
    let r' := if (src₂.read n t).1.length = n then e (src₂.read n t).1 (src₂.read n t).2
      else (amfDataError .eof, (src₂.read n t).2)
    Agrees sim r.1 r.2 r'.1 r'.2 := by
  intro r r' hr
  by_cases hlen : (src₁.read n s).1.length = n
  · have hr' : r = d (src₁.read n s).1 (src₁.read n s).2 := if_pos hlen
    have hgood : ¬ sim.Bad (src₁.read n s).2 := fun hbad₁ => hr (hr' ▸ hbad _ _ hbad₁)
    obtain ⟨hbytes, hrel'⟩ := sim.full hn hrel hgood hlen
    have hr'' : r' = e (src₁.read n s).1 (src₂.read n t).2 := by
      rw [← hbytes]
      exact if_pos (hbytes ▸ hlen)
    rw [hr', hr'']
    rw [hr'] at hr
    exact h _ _ _ hlen hrel' hr
  · have hr' : r = (amfDataError .eof, (src₁.read n s).2) := if_neg hlen
    rw [hr'] at hr ⊢
    have hlt := Nat.lt_of_le_of_ne (src₁.length_read_le n s) hlen
    rcases sim.short hn hrel hr hlt with ⟨hlt', hrel'⟩ | hdry
    · have hr'' : r' = (amfDataError .eof, (src₂.read n t).2) := if_neg (Nat.ne_of_lt hlt')
      rw [hr'']
      exact .inl ⟨rfl, hrel'⟩
    · exact .inr ⟨rfl, hdry⟩

omit [NumberImage N] in
theorem agrees_return {d : AmfData N} {s : σ} {t : τ} (hrel : sim.Rel s t) : Agrees sim d s d t :=
  fun _ => .inl ⟨rfl, hrel⟩

theorem agrees_amfNumberRead {s : σ} {t : τ} (hrel : sim.Rel s t) :
    Agrees sim (amfNumberRead src₁ s : AmfData N × σ).1 (amfNumberRead src₁ s : AmfData N × σ).2
      (amfNumberRead src₂ t).1 (amfNumberRead src₂ t : AmfData N × τ).2 :=
  agrees_read sim (by decide) hrel (d := fun val s => (.number (numberOfImage val), s))
    (e := fun val t => (.number (numberOfImage val), t)) (fun _ _ hbad => hbad)
    fun _ _ _ _ hrel' => agrees_return sim hrel'

omit [NumberImage N] in
theorem agrees_amfBooleanRead {s : σ} {t : τ} (hrel : sim.Rel s t) :
    Agrees sim (amfBooleanRead src₁ s : AmfData N × σ).1 (amfBooleanRead src₁ s : AmfData N × σ).2
      (amfBooleanRead src₂ t).1 (amfBooleanRead src₂ t : AmfData N × τ).2 :=
  agrees_read sim (by decide) hrel (d := fun val s => (.boolean (val.getD 0 0), s))
    (e := fun val t => (.boolean (val.getD 0 0), t)) (fun _ _ hbad => hbad)
    fun _ _ _ _ hrel' => agrees_return sim hrel'

theorem agrees_amfDateRead {s : σ} {t : τ} (hrel : sim.Rel s t) :
    Agrees sim (amfDateRead src₁ s : AmfData N × σ).1 (amfDateRead src₁ s : AmfData N × σ).2
      (amfDateRead src₂ t).1 (amfDateRead src₂ t : AmfData N × τ).2 := by
  let d : Bytes → Bytes → AmfData N := fun milliseconds timezone =>
    .date (numberOfImage milliseconds) (UInt16.ofNat (swapUint16 (ofLE timezone)))
  refine agrees_read sim (by decide) hrel
    (d := fun milliseconds s => if (src₁.read 2 s).1.length = 2 then
        (d milliseconds (src₁.read 2 s).1, (src₁.read 2 s).2)
      else (amfDataError .eof, (src₁.read 2 s).2))
    (e := fun milliseconds t => if (src₂.read 2 t).1.length = 2 then
        (d milliseconds (src₂.read 2 t).1, (src₂.read 2 t).2)
      else (amfDataError .eof, (src₂.read 2 t).2)) ?_ ?_
  · intro milliseconds s hbad
    split
    · exact sim.bad 2 s hbad
    · exact sim.bad 2 s hbad
  · intro milliseconds s t _ hrel'
    exact agrees_read sim (by decide) hrel' (d := fun timezone s => (d milliseconds timezone, s))
      (e := fun timezone t => (d milliseconds timezone, t)) (fun _ _ hbad => hbad)
      fun _ _ _ _ hrel'' => agrees_return sim hrel''

omit [NumberImage N] in
theorem agrees_amfStringRead {s : σ} {t : τ} (hrel : sim.Rel s t) :
    Agrees sim (amfStringRead src₁ s : AmfData N × σ).1 (amfStringRead src₁ s : AmfData N × σ).2
      (amfStringRead src₂ t).1 (amfStringRead src₂ t : AmfData N × τ).2 := by
  rw [amfStringRead_eq, amfStringRead_eq]
  refine agrees_read sim (by decide) hrel ?_ ?_
  · intro strsize s hbad
    unfold amfStringBytesRead
    dsimp only
    split
    · exact hbad
    · split
      · exact sim.bad _ s hbad
      · exact sim.bad _ s hbad
  · intro strsize s t _ hrel'
    unfold amfStringBytesRead
    dsimp only
    by_cases hsize : swapUint16 (ofLE strsize) = 0
    · rw [if_pos hsize, if_pos hsize]
      exact agrees_return sim hrel'
    · rw [if_neg hsize, if_neg hsize]
      let d : Bytes → AmfData N := fun buffer =>
        amfStringNew buffer (UInt16.ofNat (swapUint16 (ofLE strsize)))
      exact agrees_read sim (Nat.pos_of_ne_zero hsize) hrel' (d := fun buffer s => (d buffer, s))
        (e := fun buffer t => (d buffer, t)) (fun _ _ hbad => hbad)
        fun _ _ _ _ hrel'' => agrees_return sim hrel''

theorem agrees_amfScalarRead {type : AmfType} {s s' : σ} {t t' : τ} {d e : AmfData N}
    (hrel : sim.Rel s t) (h₁ : amfScalarRead src₁ type s = some (d, s'))
    (h₂ : amfScalarRead src₂ type t = some (e, t')) : Agrees sim d s' e t' := by
  cases type with
  | number =>
    have hagrees := agrees_amfNumberRead (N := N) sim hrel
    rw [amfScalarRead, Option.some.injEq] at h₁ h₂
    rwa [h₁, h₂] at hagrees
  | boolean =>
    have hagrees := agrees_amfBooleanRead (N := N) sim hrel
    rw [amfScalarRead, Option.some.injEq] at h₁ h₂
    rwa [h₁, h₂] at hagrees
  | string =>
    have hagrees := agrees_amfStringRead (N := N) sim hrel
    rw [amfScalarRead, Option.some.injEq] at h₁ h₂
    rwa [h₁, h₂] at hagrees
  | date =>
    have hagrees := agrees_amfDateRead (N := N) sim hrel
    rw [amfScalarRead, Option.some.injEq] at h₁ h₂
    rwa [h₁, h₂] at hagrees
  | null | undefined | xml | «class» | endTag =>
    cases h₁
    cases h₂
    exact agrees_return sim hrel
  | object | associativeArray | array => cases h₁

/-! ## Runs with a given fuel -/

structure Simulated (fuel : Nat) : Prop where
  data : ∀ {fuel' : Nat} {s s' : σ} {t t' : τ} {d e : AmfData N}, sim.Rel s t →
    amfDataRead src₁ fuel s = some (d, s') → amfDataRead src₂ fuel' t = some (e, t') →
    Agrees sim d s' e t'
  pairs : ∀ {kind : PairsKind} {list : List (AmfData N)} {fuel' : Nat} {s s' : σ} {t t' : τ}
    {d e : AmfData N}, sim.Rel s t → amfPairsRead src₁ kind fuel list s = some (d, s') →
    amfPairsRead src₂ kind fuel' list t = some (e, t') → Agrees sim d s' e t'
  elements : ∀ {n : Nat} {list : List (AmfData N)} {fuel' : Nat} {s s' : σ} {t t' : τ}
    {d e : AmfData N}, sim.Rel s t → amfArrayRead src₁ fuel n list s = some (d, s') →
    amfArrayRead src₂ fuel' n list t = some (e, t') → Agrees sim d s' e t'

/-- A run leaves a bad state bad. -/
theorem bad_of_reads {frame : Frame N} {s s' : σ} {d : AmfData N} (h : Reads src₁ frame s d s')
    (hbad : sim.Bad s) : sim.Bad s' := h.preserves sim.bad hbad

variable {sim}

theorem Simulated.elements_succ {fuel : Nat} (ih : Simulated (N := N) sim fuel) {n : Nat}
    {list : List (AmfData N)} {fuel' : Nat} {s s' : σ} {t t' : τ} {d e : AmfData N}
    (hrel : sim.Rel s t) (h₁ : amfArrayRead src₁ (fuel + 1) n list s = some (d, s'))
    (h₂ : amfArrayRead src₂ fuel' n list t = some (e, t')) : Agrees sim d s' e t' := by
  cases fuel' with
  | zero => simp [amfArrayRead] at h₂
  | succ fuel' =>
    cases n with
    | zero =>
      rw [amfArrayRead] at h₁ h₂
      cases h₁
      cases h₂
      exact agrees_return sim hrel
    | succ n =>
      rw [amfArrayRead_succ, Option.bind_eq_some_iff] at h₁ h₂
      obtain ⟨⟨element, s₁⟩, helement, h₁⟩ := h₁
      obtain ⟨⟨element', t₁⟩, helement', h₂⟩ := h₂
      dsimp only at h₁ h₂
      have hagrees := ih.data hrel helement helement'
      intro hbad
      by_cases hok : amfDataGetErrorCode element ≠ .ok
      · rw [if_pos hok] at h₁
        cases h₁
        rcases hagrees hbad with ⟨rfl, hrel'⟩ | ⟨heof, hdry⟩
        · rw [if_pos hok] at h₂
          cases h₂
          exact .inl ⟨rfl, hrel'⟩
        · exact .inr ⟨by rw [heof]; rfl, hdry⟩
      · rw [if_neg hok] at h₁
        have hbad₁ : ¬ sim.Bad s₁ := fun hbad₁ =>
          hbad (bad_of_reads sim ((derives src₁ fuel).array h₁) hbad₁)
        obtain ⟨rfl, hrel'⟩ := hagrees.ok hbad₁ (not_not.mp hok)
        rw [if_neg hok] at h₂
        exact ih.elements hrel' h₁ h₂ hbad

theorem Simulated.pairs_succ {fuel : Nat} (ih : Simulated (N := N) sim fuel) {kind : PairsKind}
    {list : List (AmfData N)} {fuel' : Nat} {s s' : σ} {t t' : τ} {d e : AmfData N}
    (hrel : sim.Rel s t) (h₁ : amfPairsRead src₁ kind (fuel + 1) list s = some (d, s'))
    (h₂ : amfPairsRead src₂ kind fuel' list t = some (e, t')) : Agrees sim d s' e t' := by
  cases fuel' with
  | zero =>
    cases kind with
    | object => simp [amfPairsRead, amfObjectRead] at h₂
    | associativeArray => simp [amfPairsRead, amfAssociativeArrayRead] at h₂
  | succ fuel' =>
    rw [amfPairsRead_succ] at h₁ h₂
    have hname := agrees_amfStringRead (N := N) sim hrel
    cases hs : (amfStringRead src₁ s : AmfData N × σ) with
    | mk name s₁ =>
      cases ht : (amfStringRead src₂ t : AmfData N × τ) with
      | mk name' t₁ =>
        rw [hs] at h₁ hname
        rw [ht] at h₂ hname
        dsimp only at h₁ h₂ hname
        intro hbad
        by_cases hok : amfDataGetErrorCode name ≠ .ok
        · rw [if_pos hok] at h₁
          cases h₁
          rcases hname hbad with ⟨rfl, hrel'⟩ | ⟨heof, hdry⟩
          · rw [if_pos hok] at h₂
            cases h₂
            exact .inl ⟨rfl, hrel'⟩
          · exact .inr ⟨by rw [heof]; rfl, hdry⟩
        · rw [if_neg hok, Option.bind_eq_some_iff] at h₁
          obtain ⟨⟨element, s₂⟩, helement, h₁⟩ := h₁
          -- the name was read in a good state, since the state after the whole run is good
          have hbad₂ : ¬ sim.Bad s₂ := by
            intro hbad₂
            refine hbad ?_
            unfold amfPairsStep at h₁
            split at h₁
            · cases h₁
              exact hbad₂
            · split at h₁
              · cases h₁
                exact hbad₂
              · exact bad_of_reads sim ((derives src₁ fuel).pairs h₁) hbad₂
          have hbad₁ : ¬ sim.Bad s₁ := fun hbad₁ =>
            hbad₂ (bad_of_reads sim (reads_of_amfDataRead src₁ helement) hbad₁)
          obtain ⟨rfl, hrel₁⟩ := hname.ok hbad₁ (not_not.mp hok)
          rw [if_neg hok, Option.bind_eq_some_iff] at h₂
          obtain ⟨⟨element', t₂⟩, helement', h₂⟩ := h₂
          have hagrees := ih.data hrel₁ helement helement' hbad₂
          unfold amfPairsStep at h₁ h₂
          dsimp only at h₁ h₂
          rcases hagrees with ⟨rfl, hrel₂⟩ | ⟨heof, hdry⟩
          · by_cases hstop : kind.Stops name' (amfDataGetErrorCode element')
            · rw [if_pos hstop] at h₁ h₂
              cases h₁
              cases h₂
              exact .inl ⟨rfl, hrel₂⟩
            · rw [if_neg hstop] at h₁ h₂
              by_cases hcode : amfDataGetErrorCode element' ≠ .ok
              · rw [if_pos hcode] at h₁ h₂
                cases h₁
                cases h₂
                exact .inl ⟨rfl, hrel₂⟩
              · rw [if_neg hcode] at h₁ h₂
                exact ih.pairs hrel₂ h₁ h₂ hbad
          · by_cases hstop : kind.Stops name' (amfDataGetErrorCode element)
            · -- an empty name has closed the array, in the other run too
              have hstop' : kind.Stops name' (amfDataGetErrorCode element') := by
                rcases hstop with hempty | hend | hunknown
                · exact .inl hempty
                · rw [heof] at hend
                  cases hend
                · rw [heof] at hunknown
                  cases hunknown
              rw [if_pos hstop] at h₁
              rw [if_pos hstop'] at h₂
              cases h₁
              cases h₂
              exact .inl ⟨rfl, sim.dry hdry⟩
            · rw [if_neg hstop, if_pos (by rw [heof]; decide)] at h₁
              cases h₁
              exact .inr ⟨by rw [heof]; rfl, hdry⟩

omit [NumberImage N] in
/-- A read in front of what may take a loop. -/
theorem agrees_readThen {s s' : σ} {t t' : τ} {d e : AmfData N} (hrel : sim.Rel s t)
    {f : Bytes → σ → Option (AmfData N × σ)} {g : Bytes → τ → Option (AmfData N × τ)}
    (hbad : ∀ {bs s d s'}, f bs s = some (d, s') → sim.Bad s → sim.Bad s')
    (h : ∀ {bs s t d s' e t'}, sim.Rel s t → f bs s = some (d, s') → g bs t = some (e, t') →
      Agrees sim d s' e t')
    {n : Nat} (hn : 0 < n)
    (h₁ : (if (src₁.read n s).1.length < n then some (amfDataError .eof, (src₁.read n s).2)
      else f (src₁.read n s).1 (src₁.read n s).2) = some (d, s'))
    (h₂ : (if (src₂.read n t).1.length < n then some (amfDataError .eof, (src₂.read n t).2)
      else g (src₂.read n t).1 (src₂.read n t).2) = some (e, t')) : Agrees sim d s' e t' := by
  intro hgood
  by_cases hlt : (src₁.read n s).1.length < n
  · rw [if_pos hlt] at h₁
    cases h₁
    rcases sim.short hn hrel hgood hlt with ⟨hlt', hrel'⟩ | hdry
    · rw [if_pos hlt'] at h₂
      cases h₂
      exact .inl ⟨rfl, hrel'⟩
    · exact .inr ⟨rfl, hdry⟩
  · rw [if_neg hlt] at h₁
    have hlen := Nat.le_antisymm (src₁.length_read_le n s) (Nat.le_of_not_lt hlt)
    obtain ⟨hbytes, hrel'⟩ := sim.full hn hrel (fun hbad₁ => hgood (hbad h₁ hbad₁)) hlen
    rw [hbytes, if_neg hlt] at h₂
    exact h hrel' h₁ h₂ hgood

theorem Simulated.data_succ {fuel : Nat} (ih : Simulated (N := N) sim fuel) {fuel' : Nat}
    {s s' : σ} {t t' : τ} {d e : AmfData N} (hrel : sim.Rel s t)
    (h₁ : amfDataRead src₁ (fuel + 1) s = some (d, s'))
    (h₂ : amfDataRead src₂ fuel' t = some (e, t')) : Agrees sim d s' e t' := by
  cases fuel' with
  | zero => simp [amfDataRead] at h₂
  | succ fuel' =>
    rw [amfDataRead_succ] at h₁ h₂
    refine agrees_readThen hrel (f := fun bs => amfTypeRead src₁ fuel (bs.getD 0 0))
      (g := fun bs => amfTypeRead src₂ fuel' (bs.getD 0 0)) ?_ ?_ (by decide) h₁ h₂
    · intro bs s d s' h hbad
      exact preserves_amfTypeRead sim.bad h hbad
    · intro bs s t d s' e t' hrel h₁ h₂
      unfold amfTypeRead at h₁ h₂
      cases htype : AmfType.ofCode (bs.getD 0 0) with
      | none =>
        simp only [htype] at h₁ h₂
        cases h₁
        cases h₂
        exact agrees_return sim hrel
      | some type =>
        simp only [htype] at h₁ h₂
        cases type with
        | object => exact ih.pairs hrel h₁ h₂
        | associativeArray =>
          refine agrees_readThen hrel
            (f := fun _ => amfPairsRead src₁ .associativeArray fuel [])
            (g := fun _ => amfPairsRead src₂ .associativeArray fuel' []) ?_ ?_ (by decide) h₁ h₂
          · exact fun h => bad_of_reads sim ((derives src₁ fuel).pairs h)
          · exact fun hrel => ih.pairs hrel
        | array =>
          refine agrees_readThen hrel
            (f := fun bs => amfArrayRead src₁ fuel (swapUint32 (ofLE bs)) [])
            (g := fun bs => amfArrayRead src₂ fuel' (swapUint32 (ofLE bs)) []) ?_ ?_ (by decide)
            h₁ h₂
          · exact fun h => bad_of_reads sim ((derives src₁ fuel).array h)
          · exact fun hrel => ih.elements hrel
        | _ => exact agrees_amfScalarRead sim hrel h₁ h₂

theorem simulated (sim : Simulation src₁ src₂) (fuel : Nat) : Simulated (N := N) sim fuel := by
  induction fuel with
  | zero =>
    constructor
    · intro fuel' s s' t t' d e _ h
      simp [amfDataRead] at h
    · intro kind list fuel' s s' t t' d e _ h
      cases kind with
      | object => simp [amfPairsRead, amfObjectRead] at h
      | associativeArray => simp [amfPairsRead, amfAssociativeArrayRead] at h
    · intro n list fuel' s s' t t' d e _ h
      simp [amfArrayRead] at h
  | succ fuel ih =>
    exact ⟨ih.data_succ, ih.pairs_succ, ih.elements_succ⟩

/-- A run of the reader and the run that follows it. -/
theorem agrees_amfDataRead (sim : Simulation src₁ src₂) {fuel fuel' : Nat} {s s' : σ} {t t' : τ}
    {d e : AmfData N} (hrel : sim.Rel s t) (h₁ : amfDataRead src₁ fuel s = some (d, s'))
    (h₂ : amfDataRead src₂ fuel' t = some (e, t')) : Agrees sim d s' e t' :=
  (simulated sim fuel).data hrel h₁ h₂

end

/-! ## Beyond the end of a file -/

theorem rest_fileSource_read_of_lt {n : Nat} {stream : InFile} (h : stream.rest.length < n) :
    (fileSource.read n stream).2.rest = [] := by
  have hread : fileSource.read n stream = stream.fread n := rfl
  rw [hread, InFile.fread_of_lt h, InFile.rest, ← List.drop_drop]
  exact List.drop_eq_nil_of_le (Nat.le_refl _)

/-- Whatever a file still delivers, a source that goes on with it delivers as well. -/
def beyondFile (src : ByteSource τ) : Simulation fileSource src where
  Rel stream t := stream.rest = [] ∨ ∃ more, src.rest t = stream.rest ++ more
  Dry stream := stream.rest = []
  Bad _ := False
  full {n stream t} hn hrel _ hlen := by
    have hle : n ≤ stream.rest.length := by
      refine Nat.le_of_not_lt fun hlt => ?_
      have hless : (fileSource.read n stream).1.length < n := fileSource.read_of_lt hlt
      omega
    obtain ⟨more, hmore⟩ : ∃ more, src.rest t = stream.rest ++ more := by
      rcases hrel with hempty | hmore
      · rw [hempty, List.length_nil] at hle
        omega
      · exact hmore
    have hfile : fileSource.read n stream = (stream.rest.take n, stream.advance n) :=
      fileSource.read_of_le hle
    have hle' : n ≤ (src.rest t).length := by
      rw [hmore, List.length_append]
      omega
    rw [hfile, src.read_of_le hle', hmore, List.take_append_of_le_length hle]
    refine ⟨rfl, .inr ⟨more, ?_⟩⟩
    rw [src.rest_advance, hmore, InFile.rest_advance, List.drop_append_of_le_length hle]
  short {n stream t} _ _ _ hlen := by
    refine .inr (rest_fileSource_read_of_lt (Nat.lt_of_not_le fun hle => ?_))
    have hfull : fileSource.read n stream = (stream.rest.take n, stream.advance n) :=
      fileSource.read_of_le hle
    rw [hfull, List.length_take, Nat.min_eq_left hle] at hlen
    exact Nat.lt_irrefl n hlen
  dry hdry := .inl hdry
  bad _ _ hbad := hbad

end FlvMeta
