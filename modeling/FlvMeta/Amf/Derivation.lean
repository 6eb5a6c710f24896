import FlvMeta.Amf.Read

/-!
# Runs of the reader as derivations

`Reads src frame s d s'` says that the reader, in the loop described by `frame`, goes from `s`
to `s'` and returns `d`. Every run of the four functions is such a derivation
(`reads_of_amfDataRead`), so that a property of all runs is proved by one induction with
one case for each way a loop can go on or end. For files this gives what a run does to the
position and the end-of-file flag (`FileRun`).
-/

namespace FlvMeta

open Endian Stdio

variable {σ N : Type}

/-! ## Derivations -/

/-- The two loops over names and values. -/
inductive PairsKind where
  | object
  | associativeArray
deriving DecidableEq

namespace PairsKind

def build : PairsKind → List (AmfData N) → AmfData N
  | object, list => .object list
  | associativeArray, list => .associativeArray list

/-- When the loop ends after a name and an element with a given error code. -/
def Stops (kind : PairsKind) (name : AmfData N) (errorCode : AmfError) : Prop :=
  (kind = associativeArray ∧ amfStringGetSize name = 0) ∨ errorCode = .endTag ∨
    errorCode = .unknownType

instance (kind : PairsKind) (name : AmfData N) (errorCode : AmfError) :
    Decidable (kind.Stops name errorCode) := inferInstanceAs (Decidable (_ ∨ _))

end PairsKind

/-- Where the reader is: before a value, in a loop over names and values, or in the loop over
`n` more elements. -/
inductive Frame (N : Type) where
  | value
  | pairs (kind : PairsKind) (list : List (AmfData N))
  | elements (n : Nat) (list : List (AmfData N))

section

variable [NumberImage N] (src : ByteSource σ)

/-- The types whose values are read without a loop. -/
def amfScalarRead : AmfType → σ → Option (AmfData N × σ)
  | .number, s => some (amfNumberRead src s)
  | .boolean, s => some (amfBooleanRead src s)
  | .string, s => some (amfStringRead src s)
  | .null, s => some (.null .ok, s)
  | .undefined, s => some (.undefined, s)
  | .date, s => some (amfDateRead src s)
  | .xml, s => some (amfDataError .unsupportedType, s)
  | .class, s => some (amfDataError .unsupportedType, s)
  | .endTag, s => some (amfDataError .endTag, s)
  | .object, _ => none
  | .associativeArray, _ => none
  | .array, _ => none

inductive Reads : Frame N → σ → AmfData N → σ → Prop
  | eof {s s'} : src.read 1 s = ([], s') → Reads .value s (amfDataError .eof) s'
  | unknown {s s' b bs} : src.read 1 s = (b :: bs, s') → AmfType.ofCode b = none →
    Reads .value s (amfDataError .unknownType) s'
  | scalar {s s₁ s' b bs t d} : src.read 1 s = (b :: bs, s₁) → AmfType.ofCode b = some t →
    amfScalarRead src t s₁ = some (d, s') → Reads .value s d s'
  | noSize {s s₁ b bs} : src.read 1 s = (b :: bs, s₁) → (src.read 4 s₁).1.length < 4 →
    Reads .value s (amfDataError .eof) (src.read 4 s₁).2
  | object {s s₁ s' b bs d} : src.read 1 s = (b :: bs, s₁) →
    Reads (.pairs .object []) s₁ d s' → Reads .value s d s'
  | associativeArray {s s₁ s' b bs d} : src.read 1 s = (b :: bs, s₁) →
    ¬ (src.read 4 s₁).1.length < 4 →
    Reads (.pairs .associativeArray []) (src.read 4 s₁).2 d s' → Reads .value s d s'
  | array {s s₁ s' b bs d n} : src.read 1 s = (b :: bs, s₁) →
    ¬ (src.read 4 s₁).1.length < 4 → n < 2 ^ 32 →
    Reads (.elements n []) (src.read 4 s₁).2 d s' → Reads .value s d s'
  | noName {kind list s} : amfDataGetErrorCode (amfStringRead src s : AmfData N × σ).1 ≠ .ok →
    Reads (.pairs kind list) s
      (amfDataError (amfDataGetErrorCode (amfStringRead src s : AmfData N × σ).1))
      (amfStringRead src s : AmfData N × σ).2
  | close {kind list s} {name : AmfData N} {s₁ element s'} : amfStringRead src s = (name, s₁) →
    amfDataGetErrorCode name = .ok → Reads .value s₁ element s' →
    kind.Stops name (amfDataGetErrorCode element) →
    Reads (.pairs kind list) s (kind.build list) s'
  | badValue {kind list s} {name : AmfData N} {s₁ element s'} : amfStringRead src s = (name, s₁) →
    amfDataGetErrorCode name = .ok → Reads .value s₁ element s' →
    amfDataGetErrorCode element ≠ .ok →
    Reads (.pairs kind list) s (amfDataError (amfDataGetErrorCode element)) s'
  | entry {kind list s} {name : AmfData N} {s₁ element s₂ d s'} : amfStringRead src s = (name, s₁) →
    amfDataGetErrorCode name = .ok → Reads .value s₁ element s₂ →
    ¬ kind.Stops name (amfDataGetErrorCode element) → amfDataGetErrorCode element = .ok →
    Reads (.pairs kind (list ++ [amfStr (cString (amfStringGetBytes name)), element])) s₂ d s' →
    Reads (.pairs kind list) s d s'
  | done {list s} : Reads (.elements 0 list) s (.array list) s
  | badElement {n list s element s'} : Reads .value s element s' →
    amfDataGetErrorCode element ≠ .ok →
    Reads (.elements (n + 1) list) s (amfDataError (amfDataGetErrorCode element)) s'
  | element {n list s element s₁ d s'} : Reads .value s element s₁ →
    amfDataGetErrorCode element = .ok → Reads (.elements n (list ++ [element])) s₁ d s' →
    Reads (.elements (n + 1) list) s d s'

/-- The two readers of names and values. -/
def amfPairsRead : PairsKind → Nat → List (AmfData N) → σ → Option (AmfData N × σ)
  | .object => amfObjectRead src
  | .associativeArray => amfAssociativeArrayRead src

/-- A turn of their loop, and what follows it. -/
inductive PairsTurn (kind : PairsKind) (fuel : Nat) (list : List (AmfData N)) (s : σ) :
    AmfData N → σ → Prop
  | noName : amfDataGetErrorCode (amfStringRead src s : AmfData N × σ).1 ≠ .ok →
    PairsTurn kind fuel list s
      (amfDataError (amfDataGetErrorCode (amfStringRead src s : AmfData N × σ).1))
      (amfStringRead src s : AmfData N × σ).2
  | close {name element : AmfData N} {s₁ s₂} : amfStringRead src s = (name, s₁) →
    amfDataGetErrorCode name = .ok → amfDataRead src fuel s₁ = some (element, s₂) →
    kind.Stops name (amfDataGetErrorCode element) →
    PairsTurn kind fuel list s (kind.build list) s₂
  | badValue {name element : AmfData N} {s₁ s₂} : amfStringRead src s = (name, s₁) →
    amfDataGetErrorCode name = .ok → amfDataRead src fuel s₁ = some (element, s₂) →
    amfDataGetErrorCode element ≠ .ok →
    PairsTurn kind fuel list s (amfDataError (amfDataGetErrorCode element)) s₂
  | entry {name element d : AmfData N} {s₁ s₂ s'} : amfStringRead src s = (name, s₁) →
    amfDataGetErrorCode name = .ok → amfDataRead src fuel s₁ = some (element, s₂) →
    ¬ kind.Stops name (amfDataGetErrorCode element) → amfDataGetErrorCode element = .ok →
    amfPairsRead src kind fuel
      (list ++ [amfStr (cString (amfStringGetBytes name)), element]) s₂ = some (d, s') →
    PairsTurn kind fuel list s d s'

theorem pairsTurn {kind : PairsKind} {fuel : Nat} {list : List (AmfData N)} {s s' : σ}
    {d : AmfData N} (h : amfPairsRead src kind (fuel + 1) list s = some (d, s')) :
    PairsTurn src kind fuel list s d s' := by
  cases kind with
  | object =>
    rw [amfPairsRead, amfObjectRead] at h
    dsimp only at h
    split at h
    · cases h
      exact .noName ‹_›
    · rename_i hname
      cases he : (amfDataRead src fuel (amfStringRead src s : AmfData N × σ).2 :
        Option (AmfData N × σ)) with
      | none =>
        rw [he] at h
        cases h
      | some r =>
        obtain ⟨element, s₂⟩ := r
        rw [he] at h
        dsimp only at h
        split at h
        · cases h
          exact .close rfl (Classical.not_not.mp hname) he (Or.inr ‹_›)
        · rename_i hstop
          split at h
          · cases h
            exact .badValue rfl (Classical.not_not.mp hname) he ‹_›
          · rename_i hok
            have hcode := Classical.not_not.mp hok
            have hnull := isNull_of_ok hcode
            rw [amfObjectAdd_eq rfl hnull] at h
            rw [if_neg (by simp [hnull])] at h
            refine .entry rfl (Classical.not_not.mp hname) he ?_ hcode h
            rintro (⟨hkind, -⟩ | hs)
            · cases hkind
            · exact hstop hs
  | associativeArray =>
    rw [amfPairsRead, amfAssociativeArrayRead] at h
    dsimp only at h
    split at h
    · cases h
      exact .noName ‹_›
    · rename_i hname
      cases he : (amfDataRead src fuel (amfStringRead src s : AmfData N × σ).2 :
        Option (AmfData N × σ)) with
      | none =>
        rw [he] at h
        cases h
      | some r =>
        obtain ⟨element, s₂⟩ := r
        rw [he] at h
        dsimp only at h
        split at h
        · rename_i hstop
          cases h
          refine .close rfl (Classical.not_not.mp hname) he ?_
          exact hstop.imp_left fun hsize => ⟨rfl, hsize⟩
        · rename_i hstop
          split at h
          · cases h
            exact .badValue rfl (Classical.not_not.mp hname) he ‹_›
          · rename_i hok
            have hcode := Classical.not_not.mp hok
            have hnull := isNull_of_ok hcode
            rw [amfObjectAdd_eq rfl hnull] at h
            rw [if_neg (by simp [hnull])] at h
            refine .entry rfl (Classical.not_not.mp hname) he ?_ hcode h
            exact fun hs => hstop (hs.imp_left fun hsize => hsize.2)

/-- The runs with a given fuel are derivations. -/
structure Derives (fuel : Nat) : Prop where
  data : ∀ {s : σ} {d : AmfData N} {s'}, amfDataRead src fuel s = some (d, s') →
    Reads src .value s d s'
  object : ∀ {list s} {d : AmfData N} {s'}, amfObjectRead src fuel list s = some (d, s') →
    Reads src (.pairs .object list) s d s'
  associativeArray : ∀ {list s} {d : AmfData N} {s'},
    amfAssociativeArrayRead src fuel list s = some (d, s') →
    Reads src (.pairs .associativeArray list) s d s'
  array : ∀ {n list s} {d : AmfData N} {s'}, amfArrayRead src fuel n list s = some (d, s') →
    Reads src (.elements n list) s d s'

theorem amfDataRead_derives {fuel : Nat} (ih : Derives (N := N) src fuel) {s : σ}
    {d : AmfData N} {s' : σ} (h : amfDataRead src (fuel + 1) s = some (d, s')) :
    Reads src .value s d s' := by
  rw [amfDataRead] at h
  cases hr : src.read 1 s with
  | mk bs s₁ =>
    rw [hr] at h
    cases bs with
    | nil =>
      cases h
      exact .eof hr
    | cons b bs =>
      cases ht : AmfType.ofCode b with
      | none =>
        simp only [ht] at h
        cases h
        exact .unknown hr ht
      | some t =>
        simp only [ht] at h
        cases t with
        | object => exact .object hr (ih.object h)
        | associativeArray =>
          dsimp only at h
          split at h
          · cases h
            exact .noSize hr ‹_›
          · exact .associativeArray hr ‹_› (ih.associativeArray h)
        | array =>
          dsimp only at h
          split at h
          · cases h
            exact .noSize hr ‹_›
          · exact .array hr ‹_› (swapUint32_lt _) (ih.array h)
        | _ => exact .scalar hr ht h

theorem Derives.pairs {src : ByteSource σ} {fuel : Nat} (h : Derives (N := N) src fuel)
    {kind : PairsKind} {list : List (AmfData N)} {s : σ} {d : AmfData N} {s' : σ}
    (hread : amfPairsRead src kind fuel list s = some (d, s')) :
    Reads src (.pairs kind list) s d s' := by
  cases kind with
  | object => exact h.object hread
  | associativeArray => exact h.associativeArray hread

theorem amfPairsRead_derives {fuel : Nat} (ih : Derives (N := N) src fuel) {kind : PairsKind}
    {list : List (AmfData N)} {s : σ} {d : AmfData N} {s' : σ}
    (h : amfPairsRead src kind (fuel + 1) list s = some (d, s')) :
    Reads src (.pairs kind list) s d s' := by
  cases pairsTurn src h with
  | noName hname => exact .noName hname
  | close hname hok hread hstop => exact .close hname hok (ih.data hread) hstop
  | badValue hname hok hread hcode => exact .badValue hname hok (ih.data hread) hcode
  | entry hname hok hread hstop hcode hrest =>
    exact .entry hname hok (ih.data hread) hstop hcode (ih.pairs hrest)

theorem amfArrayRead_derives {fuel : Nat} (ih : Derives (N := N) src fuel) {n : Nat}
    {list : List (AmfData N)} {s : σ} {d : AmfData N} {s' : σ}
    (h : amfArrayRead src (fuel + 1) n list s = some (d, s')) :
    Reads src (.elements n list) s d s' := by
  cases n with
  | zero =>
    rw [amfArrayRead] at h
    cases h
    exact .done
  | succ n =>
    rw [amfArrayRead] at h
    cases he : (amfDataRead src fuel s : Option (AmfData N × σ)) with
    | none =>
      rw [he] at h
      cases h
    | some r =>
      obtain ⟨element, s₁⟩ := r
      have hread := ih.data he
      rw [he] at h
      dsimp only at h
      split at h
      · cases h
        exact .badElement hread ‹_›
      · rename_i hok
        have hcode := Classical.not_not.mp hok
        have hnull := isNull_of_ok hcode
        simp only [amfListPush, hnull, Bool.false_eq_true, if_false] at h
        exact .element hread hcode (ih.array h)

theorem derives (fuel : Nat) : Derives (N := N) src fuel := by
  induction fuel with
  | zero =>
    constructor
    · intro s d s' h
      simp [amfDataRead] at h
    · intro list s d s' h
      simp [amfObjectRead] at h
    · intro list s d s' h
      simp [amfAssociativeArrayRead] at h
    · intro n list s d s' h
      simp [amfArrayRead] at h
  | succ fuel ih =>
    exact {
      data := amfDataRead_derives src ih
      object := fun h => amfPairsRead_derives src ih
        (show amfPairsRead src .object _ _ _ = _ from h)
      associativeArray := fun h => amfPairsRead_derives src ih
        (show amfPairsRead src .associativeArray _ _ _ = _ from h)
      array := amfArrayRead_derives src ih }

theorem reads_of_amfDataRead {fuel : Nat} {s : σ} {d : AmfData N} {s' : σ}
    (h : amfDataRead src fuel s = some (d, s')) : Reads src .value s d s' :=
  (derives src fuel).data h

end

/-! ## Runs on files -/

section

variable [NumberImage N]

/-- What a read without loops does to a file; a value has `k` bytes more than were read. -/
structure ScalarRun (k : Nat) (f : InFile) (d : AmfData N) (f' : InFile) : Prop where
  consumed : f.Consumed f'
  ofEof : amfDataGetErrorCode d = .eof → f'.eof = true
  ofError : f.eof = false →
    amfDataGetErrorCode d = .ok ∨ amfDataGetErrorCode d = .eof ∨ f'.eof = false
  size : amfDataGetErrorCode d = .ok → amfDataSize d + f.pos = k + f'.pos

omit [NumberImage N] in
/-- A read of `n` bytes that decides between a value and the error `eof`. -/
theorem scalarRun_fread {k n : Nat} {d : AmfData N} {f : InFile}
    (hcode : amfDataGetErrorCode d = .ok) (hsize : amfDataSize d = k + n) :
    ScalarRun k f (if (f.fread n).1.length = n then d else amfDataError .eof)
      (f.fread n).2 := by
  have hconsumed := InFile.consumed_fread n f
  rcases InFile.fread_cases n f with ⟨hle, h⟩ | ⟨hlt, h⟩
  · have hlen : (f.fread n).1.length = n := by
      rw [h, List.length_take]
      omega
    rw [if_pos hlen]
    refine ⟨hconsumed, fun he => ?_, fun _ => Or.inl hcode, fun _ => ?_⟩
    · rw [hcode] at he
      cases he
    · rw [h, hsize, InFile.advance_pos]
      omega
  · have hlen : (f.fread n).1.length ≠ n := by
      rw [h]
      exact Nat.ne_of_lt hlt
    rw [if_neg hlen]
    refine ⟨hconsumed, fun _ => by rw [h], fun _ => Or.inr (Or.inl rfl), fun hok => ?_⟩
    cases hok

omit [NumberImage N] in
theorem ScalarRun.eof_fread {k n : Nat} {f : InFile} (h : f.rest.length < n) :
    ScalarRun k f (amfDataError .eof : AmfData N) (f.fread n).2 := by
  refine ⟨InFile.consumed_fread n f, fun _ => ?_, fun _ => Or.inr (Or.inl rfl), fun hok => ?_⟩
  · rw [InFile.fread_of_lt h]
  · cases hok

omit [NumberImage N] in
/-- A full read of `n` bytes in front of another read. -/
theorem ScalarRun.after_fread {k n : Nat} {d : AmfData N} {f f' : InFile}
    (h : n ≤ f.rest.length) (hr : ScalarRun (k + n) (f.advance n) d f') : ScalarRun k f d f' := by
  have hfread := InFile.consumed_fread n f
  rw [InFile.fread_of_le h] at hfread
  refine ⟨hfread.trans hr.consumed, hr.ofEof, hr.ofError, fun hok => ?_⟩
  have hsize := hr.size hok
  rw [InFile.advance_pos] at hsize
  omega

omit [NumberImage N] in
theorem amfStringRead_scalarRun (f : InFile) :
    ScalarRun 1 f (amfStringRead fileSource f : AmfData N × InFile).1
      (amfStringRead fileSource f : AmfData N × InFile).2 := by
  have hread : ∀ n (f : InFile), fileSource.read n f = f.fread n := fun _ _ => rfl
  rcases InFile.fread_cases 2 f with ⟨hle, h⟩ | ⟨hlt, h⟩
  · have hlen : (f.rest.take 2).length = 2 := by
      rw [List.length_take]
      omega
    refine ScalarRun.after_fread hle ?_
    simp only [amfStringRead, hread, h, hlen, Nat.lt_irrefl, if_false]
    generalize hn : swapUint16 (ofLE (f.rest.take 2)) = n
    have hn' : n < 2 ^ 16 := hn ▸ swapUint16_lt _
    by_cases h0 : n = 0
    · rw [if_pos h0]
      refine ⟨InFile.Consumed.refl _, fun he => ?_, fun _ => Or.inl rfl, fun _ => rfl⟩
      cases he
    · rw [if_neg h0]
      split
      · rename_i hfull
        rw [amfStringNew_of_length hfull hn']
        have hrun := scalarRun_fread (k := 3) (n := n) (f := f.advance 2)
          (d := (.string ⟨_, hfull ▸ hn'⟩ : AmfData N)) rfl
          (by simp only [amfDataSize, AmfString.size, hfull]; omega)
        rwa [if_pos hfull] at hrun
      · rename_i hshort
        refine ScalarRun.eof_fread ?_
        rcases InFile.fread_cases n (f.advance 2) with ⟨hle', h'⟩ | ⟨hlt', -⟩
        · rw [h', List.length_take] at hshort
          omega
        · exact hlt'
  · have hlen : (f.fread 2).1.length < 2 := by
      rw [h]
      exact hlt
    simp only [amfStringRead, hread, hlen, if_true]
    exact ScalarRun.eof_fread hlt

theorem amfDateRead_scalarRun (f : InFile) :
    ScalarRun 1 f (amfDateRead fileSource f : AmfData N × InFile).1
      (amfDateRead fileSource f : AmfData N × InFile).2 := by
  have hread : ∀ n (f : InFile), fileSource.read n f = f.fread n := fun _ _ => rfl
  rcases InFile.fread_cases 8 f with ⟨hle, h⟩ | ⟨hlt, h⟩
  · have hlen : (f.rest.take 8).length = 8 := by
      rw [List.length_take]
      omega
    refine ScalarRun.after_fread hle ?_
    simp only [amfDateRead, hread, h, hlen, if_true]
    have hrun := scalarRun_fread (k := 9) (n := 2) (f := f.advance 8)
      (d := (.date (numberOfImage (f.rest.take 8))
        (UInt16.ofNat (swapUint16 (ofLE ((f.advance 8).fread 2).1))) : AmfData N)) rfl rfl
    split
    · rwa [if_pos ‹_›] at hrun
    · rwa [if_neg ‹_›] at hrun
  · have hlen : (f.fread 8).1.length ≠ 8 := by
      rw [h]
      exact Nat.ne_of_lt hlt
    simp only [amfDateRead, hread, hlen, if_false]
    exact ScalarRun.eof_fread hlt

theorem amfNumberRead_scalarRun (f : InFile) :
    ScalarRun 1 f (amfNumberRead fileSource f : AmfData N × InFile).1
      (amfNumberRead fileSource f : AmfData N × InFile).2 := by
  have hrun := scalarRun_fread (k := 1) (n := 8) (f := f)
    (d := (.number (numberOfImage (f.fread 8).1) : AmfData N)) rfl rfl
  have hread : fileSource.read 8 f = f.fread 8 := rfl
  simp only [amfNumberRead, hread]
  split
  · rwa [if_pos ‹_›] at hrun
  · rwa [if_neg ‹_›] at hrun

omit [NumberImage N] in
theorem amfBooleanRead_scalarRun (f : InFile) :
    ScalarRun 1 f (amfBooleanRead fileSource f : AmfData N × InFile).1
      (amfBooleanRead fileSource f : AmfData N × InFile).2 := by
  have hrun := scalarRun_fread (k := 1) (n := 1) (f := f)
    (d := (.boolean ((f.fread 1).1.getD 0 0) : AmfData N)) rfl rfl
  have hread : fileSource.read 1 f = f.fread 1 := rfl
  simp only [amfBooleanRead, hread]
  split
  · rwa [if_pos ‹_›] at hrun
  · rwa [if_neg ‹_›] at hrun

omit [NumberImage N] in
/-- A result that takes no more than the type code. -/
theorem ScalarRun.of_size {d : AmfData N} (hsize : amfDataSize d = 1)
    (hcode : amfDataGetErrorCode d ≠ .eof) (f : InFile) : ScalarRun 1 f d f :=
  ⟨InFile.Consumed.refl f, fun h => absurd h hcode, fun hf => Or.inr (Or.inr hf),
    fun _ => by rw [hsize]⟩

omit [NumberImage N] in
theorem ScalarRun.of_eq {r : AmfData N × InFile} {d : AmfData N} {f f' : InFile}
    (hr : ScalarRun 1 f r.1 r.2) (h : some r = some (d, f')) : ScalarRun 1 f d f' := by
  cases h
  exact hr

theorem amfScalarRead_scalarRun {t : AmfType} {f f' : InFile} {d : AmfData N}
    (h : amfScalarRead fileSource t f = some (d, f')) : ScalarRun 1 f d f' := by
  cases t with
  | number => exact (amfNumberRead_scalarRun f).of_eq h
  | boolean => exact (amfBooleanRead_scalarRun f).of_eq h
  | string => exact (amfStringRead_scalarRun f).of_eq h
  | date => exact (amfDateRead_scalarRun f).of_eq h
  | object => cases h
  | associativeArray => cases h
  | array => cases h
  | _ =>
    cases h
    exact ScalarRun.of_size rfl (by rintro ⟨⟩) _

/-! ### All runs -/

namespace Frame

/-- What the size of the finished value has beyond the entries still to come. -/
def base : Frame N → Nat
  | .value => 0
  | .pairs .object list => 1 + amfPairsSize list
  | .pairs .associativeArray list => 5 + amfPairsSize list
  | .elements _ list => 5 + amfElementsSize list

/-- Names and values alternate. -/
def Paired : Frame N → Prop
  | .pairs _ list => list.length % 2 = 0
  | _ => True

end Frame

omit [NumberImage N] in
theorem amfPairsSize_append : ∀ {xs : List (AmfData N)} (ys : List (AmfData N)),
    xs.length % 2 = 0 → amfPairsSize (xs ++ ys) = amfPairsSize xs + amfPairsSize ys
  | [], ys, _ => by simp [amfPairsSize]
  | [_], _, h => by simp at h
  | name :: value :: xs, ys, h => by
    have hxs : xs.length % 2 = 0 := by
      simp only [List.length_cons] at h
      omega
    have ih := amfPairsSize_append ys hxs
    simp only [List.cons_append, amfPairsSize, ih]
    omega

omit [NumberImage N] in
theorem amfElementsSize_append (xs ys : List (AmfData N)) :
    amfElementsSize (xs ++ ys) = amfElementsSize xs + amfElementsSize ys := by
  induction xs with
  | nil => simp [amfElementsSize]
  | cons x xs ih =>
    simp only [List.cons_append, amfElementsSize, ih]
    omega

/-- What a run does to a file. A value takes at least its size from the file, except that an
associative array whose last name is followed by the end of the file lacks one byte. -/
structure FileRun (frame : Frame N) (f : InFile) (d : AmfData N) (f' : InFile) : Prop where
  consumed : f.Consumed f'
  progress : frame = .value → amfDataGetErrorCode d ≠ .eof → f.pos < f'.pos
  ofEof : amfDataGetErrorCode d = .eof → f'.eof = true
  ofError : f.Sane →
    amfDataGetErrorCode d = .ok ∨ amfDataGetErrorCode d = .eof ∨ f'.eof = false
  size : f.Sane → frame.Paired → amfDataGetErrorCode d = .ok →
    amfDataSize d + f.pos + f.eof.toNat ≤ frame.base + f'.pos + f'.eof.toNat

omit [NumberImage N] in
theorem fileSource_read (n : Nat) (f : InFile) : fileSource.read n f = f.fread n := rfl

theorem read_one {f f₁ : InFile} {b : UInt8} {bs : Bytes}
    (h : fileSource.read 1 f = (b :: bs, f₁)) : f.Consumed f₁ ∧ f₁ = f.advance 1 := by
  have hconsumed := InFile.consumed_fread 1 f
  rw [fileSource_read] at h
  rw [h] at hconsumed
  refine ⟨hconsumed, ?_⟩
  rcases InFile.fread_cases 1 f with ⟨-, h'⟩ | ⟨hlt, h'⟩
  · rw [h'] at h
    exact (Prod.mk.inj h).2.symm
  · have hnil : f.rest = [] := List.length_eq_zero_iff.mp (by omega)
    rw [h', hnil] at h
    cases h

theorem read_size {f : InFile} (h : ¬ (fileSource.read 4 f).1.length < 4) :
    f.Consumed (fileSource.read 4 f).2 ∧ (fileSource.read 4 f).2.pos = f.pos + 4 := by
  rw [fileSource_read] at h ⊢
  refine ⟨InFile.consumed_fread 4 f, ?_⟩
  rcases InFile.fread_cases 4 f with ⟨-, h'⟩ | ⟨hlt, h'⟩
  · rw [h']
    rfl
  · rw [h'] at h
    exact absurd hlt h

omit [NumberImage N] in
theorem amfStringRead_shape (src : ByteSource σ) (s : σ) :
    (∃ str, (amfStringRead src s : AmfData N × σ).1 = .string str) ∨
      (amfStringRead src s : AmfData N × σ).1 = amfDataError .eof := by
  unfold amfStringRead
  dsimp only
  split
  · exact Or.inr rfl
  · split
    · exact Or.inl ⟨_, rfl⟩
    · split
      · exact Or.inl ⟨_, rfl⟩
      · exact Or.inr rfl

omit [NumberImage N] in
theorem name_run {f f₁ : InFile} {name : AmfData N}
    (h : amfStringRead fileSource f = (name, f₁)) (hok : amfDataGetErrorCode name = .ok) :
    f.Consumed f₁ ∧ f.pos + 2 + amfStringGetSize name = f₁.pos := by
  have hrun := amfStringRead_scalarRun (N := N) f
  have hshape := amfStringRead_shape (N := N) fileSource f
  rw [h] at hrun hshape
  refine ⟨hrun.consumed, ?_⟩
  have hsize := hrun.size hok
  rcases hshape with ⟨str, hstr⟩ | hstr
  · dsimp only at hstr hsize
    rw [hstr] at hsize ⊢
    simp only [amfDataSize] at hsize
    simp only [amfStringGetSize, AmfData.stringData]
    omega
  · dsimp only at hstr
    rw [hstr] at hok
    cases hok

omit [NumberImage N] in
/-- An error with the code of `d`, in place of `d`. -/
theorem FileRun.error {frame frame' : Frame N} {f f₁ f' : InFile} {d : AmfData N}
    (hf : f.Consumed f₁) (h : FileRun frame f₁ d f') (hcode : amfDataGetErrorCode d ≠ .ok)
    (hframe : frame' ≠ .value) :
    FileRun frame' f (amfDataError (amfDataGetErrorCode d)) f' := by
  refine ⟨hf.trans h.consumed, fun hv => absurd hv hframe, fun he => h.ofEof he,
    fun hsane => h.ofError (hf.sane hsane), fun _ _ hok => ?_⟩
  exact absurd hok hcode

omit [NumberImage N] in
theorem fileRun_close {kind : PairsKind} {list : List (AmfData N)} {f f₁ f' : InFile}
    {name element : AmfData N} (hname : amfStringRead fileSource f = (name, f₁))
    (hok : amfDataGetErrorCode name = .ok) (h : FileRun .value f₁ element f')
    (hstop : kind.Stops name (amfDataGetErrorCode element)) :
    FileRun (.pairs kind list) f (kind.build list) f' := by
  obtain ⟨hconsumed, hpos⟩ := name_run hname hok
  have hcode : amfDataGetErrorCode (kind.build list) = .ok := by cases kind <;> rfl
  have hsize : amfDataSize (kind.build list) = (Frame.pairs kind list).base + 3 := by
    cases kind <;> simp only [PairsKind.build, amfDataSize, Frame.base] <;> omega
  refine ⟨hconsumed.trans h.consumed, nofun, fun he => ?_, fun _ => Or.inl hcode,
    fun hsane _ _ => ?_⟩
  · rw [hcode] at he
    cases he
  · have heof := hconsumed.eof_of_lt hsane (by omega)
    have hle := h.consumed.pos
    rw [hsize, heof]
    by_cases he : amfDataGetErrorCode element = .eof
    · -- only an empty name lets a loop end before the end of the file is reported
      have hflag := h.ofEof he
      rw [hflag]
      simp only [Bool.toNat_true, Bool.toNat_false]
      omega
    · have hlt := h.progress rfl he
      simp only [Bool.toNat_false]
      omega

omit [NumberImage N] in
theorem fileRun_entry {kind : PairsKind} {list : List (AmfData N)} {f f₁ f₂ f' : InFile}
    {name element d : AmfData N} (hname : amfStringRead fileSource f = (name, f₁))
    (hok : amfDataGetErrorCode name = .ok) (h : FileRun .value f₁ element f₂)
    (hcode : amfDataGetErrorCode element = .ok)
    (hrest : FileRun (.pairs kind
      (list ++ [amfStr (cString (amfStringGetBytes name)), element])) f₂ d f') :
    FileRun (.pairs kind list) f d f' := by
  obtain ⟨hconsumed, hpos⟩ := name_run hname hok
  have hconsumed₂ := hconsumed.trans h.consumed
  refine ⟨hconsumed₂.trans hrest.consumed, nofun, hrest.ofEof,
    fun hsane => hrest.ofError (hconsumed₂.sane hsane), fun hsane hpaired hd => ?_⟩
  have heof := hconsumed.eof_of_lt hsane (by omega)
  have hsane₁ := hconsumed.sane hsane
  have helement := h.size hsane₁ trivial hcode
  have hbound := hrest.size (hconsumed₂.sane hsane)
    (by simp only [Frame.Paired, List.length_append, List.length_cons, List.length_nil] at hpaired ⊢
        omega) hd
  have hnameSize : amfStringGetSize (amfStr (cString (amfStringGetBytes name)) : AmfData N) ≤
      amfStringGetSize name :=
    Nat.le_trans (amfStringGetSize_amfStr_le _) (length_cString_le _)
  have hbase : (Frame.pairs kind
      (list ++ [amfStr (cString (amfStringGetBytes name)), element])).base ≤
      (Frame.pairs kind list).base + 2 + amfStringGetSize name + amfDataSize element := by
    cases kind <;> simp only [Frame.base, amfPairsSize_append _ hpaired, amfPairsSize] <;> omega
  have hvalue : (Frame.value : Frame N).base = 0 := rfl
  rw [heof, Bool.toNat_false]
  omega

omit [NumberImage N] in
theorem fileRun_element {n : Nat} {list : List (AmfData N)} {f f₁ f' : InFile}
    {element d : AmfData N} (h : FileRun .value f element f₁)
    (hcode : amfDataGetErrorCode element = .ok)
    (hrest : FileRun (.elements n (list ++ [element])) f₁ d f') :
    FileRun (.elements (n + 1) list) f d f' := by
  refine ⟨h.consumed.trans hrest.consumed, nofun, hrest.ofEof,
    fun hsane => hrest.ofError (h.consumed.sane hsane), fun hsane _ hd => ?_⟩
  have helement := h.size hsane trivial hcode
  have hbound := hrest.size (h.consumed.sane hsane) trivial hd
  simp only [Frame.base, amfElementsSize_append, amfElementsSize] at helement hbound ⊢
  omega

omit [NumberImage N] in
/-- A value whose loop starts after the bytes of its code and size. -/
theorem FileRun.start {frame : Frame N} {n : Nat} {f f₁ f' : InFile} {d : AmfData N}
    (h : FileRun frame f₁ d f') (hf : f.Consumed f₁) (hpos : f₁.pos = f.pos + n) (hn : 0 < n)
    (hbase : frame.base ≤ n) (hpaired : frame.Paired) : FileRun .value f d f' := by
  have hle := h.consumed.pos
  refine ⟨hf.trans h.consumed, fun _ _ => by omega, h.ofEof,
    fun hsane => h.ofError (hf.sane hsane), fun hsane _ hok => ?_⟩
  have hsize := h.size (hf.sane hsane) hpaired hok
  have heof := hf.eof_of_lt hsane (by omega)
  rw [heof]
  simp only [Frame.base, Bool.toNat_false]
  omega

theorem fileRun {frame : Frame N} {f f' : InFile} {d : AmfData N}
    (h : Reads fileSource frame f d f') : FileRun frame f d f' := by
  induction h with
  | @eof f f' h =>
    have hconsumed := InFile.consumed_fread 1 f
    rw [fileSource_read] at h
    rcases InFile.fread_cases 1 f with ⟨hle, h'⟩ | ⟨hlt, h'⟩
    · have hnil : f.rest.take 1 = [] := by
        rw [h'] at h
        exact (Prod.mk.inj h).1
      have hlen := congrArg List.length hnil
      rw [List.length_take, List.length_nil] at hlen
      omega
    · rw [h] at hconsumed
      have hflag : f'.eof = true := by
        rw [h'] at h
        rw [← (Prod.mk.inj h).2]
      exact ⟨hconsumed, fun _ hne => absurd rfl hne, fun _ => hflag,
        fun _ => Or.inr (Or.inl rfl), nofun⟩
  | @unknown f f' b bs h ht =>
    obtain ⟨hconsumed, rfl⟩ := read_one h
    have hlt : f.pos < (f.advance 1).pos := Nat.lt_succ_self _
    exact ⟨hconsumed, fun _ _ => hlt, nofun,
      fun hsane => Or.inr (Or.inr (hconsumed.eof_of_lt hsane hlt)), nofun⟩
  | @scalar f f₁ f' b bs t d h ht hs =>
    obtain ⟨hconsumed, rfl⟩ := read_one h
    have hlt : f.pos < (f.advance 1).pos := Nat.lt_succ_self _
    have hrun := amfScalarRead_scalarRun hs
    have hle := hrun.consumed.pos
    refine ⟨hconsumed.trans hrun.consumed, fun _ _ => by omega, hrun.ofEof,
      fun hsane => hrun.ofError (hconsumed.eof_of_lt hsane hlt), fun hsane _ hok => ?_⟩
    have hsize := hrun.size hok
    have heof := hconsumed.eof_of_lt hsane hlt
    rw [InFile.advance_pos] at hsize
    rw [heof, Bool.toNat_false]
    simp only [Frame.base]
    omega
  | @noSize f f₁ b bs h hsize =>
    obtain ⟨hconsumed, rfl⟩ := read_one h
    refine ⟨hconsumed.trans (InFile.consumed_fread 4 _), fun _ hne => absurd rfl hne, fun _ => ?_,
      fun _ => Or.inr (Or.inl rfl), nofun⟩
    rw [fileSource_read] at hsize ⊢
    rcases InFile.fread_cases 4 (f.advance 1) with ⟨hle, h'⟩ | ⟨-, h'⟩
    · rw [h', List.length_take] at hsize
      omega
    · rw [h']
  | object h hrun ih =>
    obtain ⟨hconsumed, rfl⟩ := read_one h
    exact ih.start hconsumed rfl (by decide) (by simp [Frame.base, amfPairsSize]) rfl
  | associativeArray h hsize hrun ih =>
    obtain ⟨hconsumed, rfl⟩ := read_one h
    obtain ⟨hconsumed', hpos'⟩ := read_size hsize
    exact ih.start (n := 5) (hconsumed.trans hconsumed')
      (by rw [hpos', InFile.advance_pos]) (by decide)
      (by simp [Frame.base, amfPairsSize]) rfl
  | array h hsize hn hrun ih =>
    obtain ⟨hconsumed, rfl⟩ := read_one h
    obtain ⟨hconsumed', hpos'⟩ := read_size hsize
    exact ih.start (n := 5) (hconsumed.trans hconsumed')
      (by rw [hpos', InFile.advance_pos]) (by decide)
      (by simp [Frame.base, amfElementsSize]) trivial
  | @noName kind list f hname =>
    have hrun := amfStringRead_scalarRun (N := N) f
    have hcode : amfDataGetErrorCode (amfStringRead fileSource f : AmfData N × InFile).1 =
        .eof := by
      rcases amfStringRead_shape (N := N) fileSource f with ⟨str, hstr⟩ | hstr
      · rw [hstr] at hname
        exact absurd rfl hname
      · rw [hstr]
        rfl
    rw [hcode]
    exact ⟨hrun.consumed, nofun, fun _ => hrun.ofEof hcode, fun _ => Or.inr (Or.inl rfl), nofun⟩
  | close hname hok hrun hstop ih => exact fileRun_close hname hok ih hstop
  | badValue hname hok hrun hcode ih => exact ih.error (name_run hname hok).1 hcode nofun
  | entry hname hok hrun hstop hcode hrest ih ih' => exact fileRun_entry hname hok ih hcode ih'
  | done =>
    refine ⟨InFile.Consumed.refl _, nofun, nofun, fun _ => Or.inl rfl, fun _ _ _ => ?_⟩
    simp only [amfDataSize, Frame.base]
    omega
  | badElement hrun hcode ih => exact ih.error (InFile.Consumed.refl _) hcode nofun
  | element hrun hcode hrest ih ih' => exact fileRun_element ih hcode ih'

theorem amfDataFileRead_run (stream : InFile) :
    FileRun .value stream (amfDataFileRead stream : AmfData N × InFile).1
      (amfDataFileRead stream : AmfData N × InFile).2 :=
  fileRun (reads_of_amfDataRead fileSource (amfDataRead_eq_fileRead stream))

end

end FlvMeta
