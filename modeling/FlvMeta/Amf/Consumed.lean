import FlvMeta.Amf.Sound

/-!
# Bytes read and bytes kept

`amf_data_size` is the size of the encoding of a value, which need not be the one it was read from.
The readers of objects and associative arrays read bytes that they do not keep: what follows a zero
byte in a name, the name that ends the container, and what is read of the value behind that name
after its type. An associative array also ends when the file ends behind an empty name, and then
lacks the byte of the type. `valueSlack` counts both along a run, and the size of a value is what
was read of it exactly if the counts are equal (`amfDataSize_eq_read_iff`).
-/

namespace FlvMeta

open Endian Stdio

variable {σ N : Type}

/-! ## Slack -/

/-- The bytes that are read and not kept, and those that are not there. -/
structure Slack where
  spare : Nat
  missing : Nat
deriving DecidableEq, Repr

namespace Slack

def none : Slack := ⟨0, 0⟩

def plus (x y : Slack) : Slack := ⟨x.spare + y.spare, x.missing + y.missing⟩

end Slack

/-- Of a name that is kept, the bytes behind its first zero byte are not. -/
def nameSlack (name : AmfData N) : Slack where
  spare := amfStringGetSize name - (cString (amfStringGetBytes name)).length
  missing := 0

section

variable (src : ByteSource σ)

/-- A container ends after a name and a value that is read from `s` to `s'`. -/
def closeSlack (name : AmfData N) (s s' : σ) : Slack where
  spare := amfStringGetSize name + (unread src s - (unread src s' + 1))
  missing := if unread src s = 0 then 1 else 0

variable (N) [NumberImage N]

mutual

/-- The slack of the value at `s`. -/
def valueSlack : Nat → σ → Slack
  | 0, _ => .none
  | fuel + 1, s =>
    match src.read 1 s with
    | ([], _) => .none
    | (type :: _, s) =>
      match AmfType.ofCode type with
      | some .object => pairsSlack .object fuel s
      | some .associativeArray => pairsSlack .associativeArray fuel (src.read 4 s).2
      | some .array => elementsSlack fuel (swapUint32 (ofLE (src.read 4 s).1)) (src.read 4 s).2
      | _ => .none

/-- The slack of the names and values from `s` on. -/
def pairsSlack (kind : PairsKind) : Nat → σ → Slack
  | 0, _ => .none
  | fuel + 1, s =>
    match (amfStringRead src s : AmfData N × σ) with
    | (name, s₁) =>
      match (amfDataRead src fuel s₁ : Option (AmfData N × σ)) with
      | none => .none
      | some (element, s₂) =>
        if kind.Stops name (amfDataGetErrorCode element) then closeSlack src name s₁ s₂
        else (nameSlack name).plus ((valueSlack fuel s₁).plus (pairsSlack kind fuel s₂))

/-- The slack of `n` elements from `s` on. -/
def elementsSlack : Nat → Nat → σ → Slack
  | 0, _, _ => .none
  | _ + 1, 0, _ => .none
  | fuel + 1, n + 1, s =>
    match (amfDataRead src fuel s : Option (AmfData N × σ)) with
    | none => .none
    | some (_, s₁) => (valueSlack fuel s).plus (elementsSlack fuel n s₁)

end

end

/-! ## Reads of a known length -/

section

variable {src : ByteSource σ}

theorem unread_of_full {n : Nat} {s : σ} (h : n ≤ (src.read n s).1.length) :
    unread src (src.read n s).2 + n = unread src s := by
  by_cases hle : n ≤ (src.rest s).length
  · rw [src.read_of_le hle]
    dsimp only
    rw [unread, unread, src.rest_advance, List.length_drop]
    omega
  · have hlt := src.read_of_lt (Nat.lt_of_not_le hle)
    omega

theorem unread_of_byte {s s₁ : σ} {b : UInt8} {bs : Bytes} (h : src.read 1 s = (b :: bs, s₁)) :
    unread src s₁ + 1 = unread src s := by
  have hlen : 1 ≤ (src.read 1 s).1.length := by simp [h]
  have hfull := unread_of_full hlen
  rwa [h] at hfull

/-- A name takes its length and its bytes. -/
theorem unread_of_name {s s₁ : σ} {name : AmfData N} (h : amfStringRead src s = (name, s₁))
    (hok : amfDataGetErrorCode name = .ok) :
    amfDataSize name = 3 + amfStringGetSize name ∧
      unread src s₁ + 2 + amfStringGetSize name = unread src s := by
  unfold amfStringRead at h
  dsimp only at h
  split at h
  · cases h
    cases hok
  · rename_i hlen
    have htwo := unread_of_full (Nat.le_of_not_lt hlen)
    split at h
    · cases h
      exact ⟨rfl, htwo⟩
    · split at h
      · rename_i hfull
        have hsize := unread_of_full (Nat.le_of_eq hfull.symm)
        rw [amfStringNew_of_length hfull (swapUint16_lt _)] at h
        cases h
        simp only [amfDataSize, amfStringGetSize, AmfData.stringData, AmfString.size, hfull]
        omega
      · cases h
        cases hok

variable [NumberImage N]

/-- A value that is read without a loop takes its size, with the byte of its type. -/
theorem unread_of_scalar {t : AmfType} {s s' : σ} {d : AmfData N}
    (h : amfScalarRead src t s = some (d, s')) (hok : amfDataGetErrorCode d = .ok) :
    amfDataSize d + unread src s' = 1 + unread src s := by
  cases t with
  | number =>
    have hread := Option.some.inj h
    unfold amfNumberRead at hread
    dsimp only at hread
    split at hread
    · rename_i hlen
      have hfull := unread_of_full (Nat.le_of_eq hlen.symm)
      cases hread
      simp only [amfDataSize]
      omega
    · cases hread
      cases hok
  | boolean =>
    have hread := Option.some.inj h
    unfold amfBooleanRead at hread
    dsimp only at hread
    split at hread
    · rename_i hlen
      have hfull := unread_of_full (Nat.le_of_eq hlen.symm)
      cases hread
      simp only [amfDataSize]
      omega
    · cases hread
      cases hok
  | string =>
    obtain ⟨hsize, hread⟩ := unread_of_name (Option.some.inj h) hok
    omega
  | date =>
    have hread := Option.some.inj h
    unfold amfDateRead at hread
    dsimp only at hread
    split at hread
    · rename_i hlen
      have hfull := unread_of_full (Nat.le_of_eq hlen.symm)
      split at hread
      · rename_i hlen'
        have hfull' := unread_of_full (Nat.le_of_eq hlen'.symm)
        cases hread
        simp only [amfDataSize]
        omega
      · cases hread
        cases hok
    · cases hread
      cases hok
  | null =>
    cases h
    rfl
  | undefined =>
    cases h
    rfl
  | object => cases h
  | associativeArray => cases h
  | array => cases h
  | _ =>
    cases h
    cases hok

/-- Any read takes a byte unless there is none. -/
theorem unread_of_value {s s' : σ} {d : AmfData N} (h : Reads src .value s d s')
    (hne : unread src s ≠ 0) : unread src s' + 1 ≤ unread src s := by
  cases h with
  | eof h =>
    have hpos : 1 ≤ (src.rest s).length := Nat.pos_of_ne_zero hne
    have hfull := src.read_of_le hpos
    rw [h] at hfull
    have hlength := congrArg (fun r => r.1.length) hfull
    rw [List.length_take, Nat.min_eq_left hpos] at hlength
    cases hlength
  | unknown h ht =>
    have hbyte := unread_of_byte h
    omega
  | scalar h ht hs =>
    have hbyte := unread_of_byte h
    have hle := (oneNode_amfScalarRead hs).1
    dsimp only at hle
    omega
  | @noSize _ s₁ _ _ h hsize =>
    have hbyte := unread_of_byte h
    have hle := unread_read src 4 s₁
    omega
  | object h hrun =>
    have hbyte := unread_of_byte h
    have hle := (soundRun hrun).unread_le
    omega
  | @associativeArray _ s₁ _ _ _ _ h hsize hrun =>
    have hbyte := unread_of_byte h
    have hread := unread_read src 4 s₁
    have hle := (soundRun hrun).unread_le
    omega
  | @array _ s₁ _ _ _ _ _ h hsize hn hrun =>
    have hbyte := unread_of_byte h
    have hread := unread_read src 4 s₁
    have hle := (soundRun hrun).unread_le
    omega

theorem unread_of_ok {s s' : σ} {d : AmfData N} (h : Reads src .value s d s')
    (hok : amfDataGetErrorCode d = .ok) : 1 ≤ unread src s := by
  cases h with
  | eof h => cases hok
  | unknown h ht => cases hok
  | scalar h =>
    have hbyte := unread_of_byte h
    omega
  | noSize h => cases hok
  | object h =>
    have hbyte := unread_of_byte h
    omega
  | associativeArray h =>
    have hbyte := unread_of_byte h
    omega
  | array h =>
    have hbyte := unread_of_byte h
    omega

/-- A loop over names and values that ends in a value reads the two bytes of a length. -/
theorem unread_of_pairs {kind : PairsKind} {list : List (AmfData N)} {s s' : σ} {d : AmfData N}
    (h : Reads src (.pairs kind list) s d s') (hok : amfDataGetErrorCode d = .ok) :
    2 ≤ unread src s := by
  cases h with
  | noName hname => exact absurd hok hname
  | badValue hname hcode hrun hbad => exact absurd hok hbad
  | close hname hcode =>
    have hread := (unread_of_name hname hcode).2
    omega
  | entry hname hcode =>
    have hread := (unread_of_name hname hcode).2
    omega

/-! ## The account of a run -/

/-- The size of the value that is returned and the bytes that are read, with their slack. What is
missing is missing at the end of the input. -/
structure Accounted (src : ByteSource σ) (frame : Frame N) (s : σ) (d : AmfData N) (s' : σ)
    (slack : Slack) : Prop where
  size : amfDataSize d + slack.spare + unread src s' = frame.base + unread src s + slack.missing
  missing : slack.missing = 0 ∨ slack.missing = 1 ∧ unread src s' = 0

/-- The account of the runs with a given fuel. -/
structure Accounts (N : Type) [NumberImage N] (src : ByteSource σ) (fuel : Nat) : Prop where
  data : ∀ {s s'} {d : AmfData N}, amfDataRead src fuel s = some (d, s') →
    amfDataGetErrorCode d = .ok → Accounted src .value s d s' (valueSlack N src fuel s)
  pairs : ∀ {kind list s s'} {d : AmfData N}, amfPairsRead src kind fuel list s = some (d, s') →
    amfDataGetErrorCode d = .ok → list.length % 2 = 0 →
    Accounted src (.pairs kind list) s d s' (pairsSlack N src kind fuel s)
  elements : ∀ {n list s s'} {d : AmfData N}, amfArrayRead src fuel n list s = some (d, s') →
    amfDataGetErrorCode d = .ok →
    Accounted src (.elements n list) s d s' (elementsSlack N src fuel n s)

omit [NumberImage N] in
/-- Behind missing bytes nothing more is read. -/
theorem Accounted.plus {frame frame' : Frame N} {s s₁ s' : σ} {element d : AmfData N}
    {x y : Slack} (h : Accounted src frame s element s₁ x) (hrest : Accounted src frame' s₁ d s' y)
    (hmore : unread src s₁ = 0 → y.missing = 0 ∧ unread src s' = 0) :
    (x.plus y).missing = 0 ∨ (x.plus y).missing = 1 ∧ unread src s' = 0 := by
  simp only [Slack.plus]
  rcases h.missing with hzero | ⟨hone, hend⟩
  · rw [hzero, Nat.zero_add]
    exact hrest.missing
  · obtain ⟨hy, hs'⟩ := hmore hend
    exact Or.inr ⟨by omega, hs'⟩

theorem accounted_close {kind : PairsKind} {list : List (AmfData N)} {fuel : Nat} {s s₁ s₂ : σ}
    {name element : AmfData N} (hname : amfStringRead src s = (name, s₁))
    (hok : amfDataGetErrorCode name = .ok) (hread : amfDataRead src fuel s₁ = some (element, s₂)) :
    Accounted src (.pairs kind list) s (kind.build list) s₂ (closeSlack src name s₁ s₂) := by
  have hnamed := (unread_of_name hname hok).2
  have hrun := reads_of_amfDataRead src hread
  have hle := (soundRun hrun).unread_le
  have hsize : amfDataSize (kind.build list) = (Frame.pairs kind list).base + 3 := by
    cases kind <;> simp only [PairsKind.build, amfDataSize, Frame.base] <;> omega
  by_cases hzero : unread src s₁ = 0
  · refine ⟨?_, Or.inr ⟨?_, by omega⟩⟩
    · simp only [closeSlack, hzero, if_true]
      omega
    · simp only [closeSlack, hzero, if_true]
  · have hbyte := unread_of_value hrun hzero
    refine ⟨?_, Or.inl ?_⟩
    · simp only [closeSlack, hzero, if_false]
      omega
    · simp only [closeSlack, hzero, if_false]

omit [NumberImage N] in
theorem size_nameSlack {name : AmfData N} {s s₁ : σ} (hname : amfStringRead src s = (name, s₁))
    (hok : amfDataGetErrorCode name = .ok) :
    amfStringGetSize (amfStr (cString (amfStringGetBytes name)) : AmfData N) +
      (nameSlack name).spare = amfStringGetSize name := by
  have hshape := amfStringRead_shape (N := N) src s
  rw [hname] at hshape
  rcases hshape with ⟨str, hstr⟩ | hstr
  · dsimp only at hstr
    subst hstr
    have hle := length_cString_le str.bytes
    have hlt := str.size_lt
    have hbytes : amfStringGetBytes (.string str : AmfData N) = str.bytes := rfl
    have hsize : amfStringGetSize (.string str : AmfData N) = str.bytes.length := rfl
    rw [nameSlack, hbytes, hsize, amfStr_of_length_lt (Nat.lt_of_le_of_lt hle hlt)]
    simp only [amfStringGetSize, AmfData.stringData, AmfString.size]
    omega
  · dsimp only at hstr
    rw [hstr] at hok
    cases hok

omit [NumberImage N] in
theorem accounted_entry {kind : PairsKind} {list : List (AmfData N)} {s s₁ s₂ s' : σ}
    {name element d : AmfData N} {x y : Slack} (hpaired : list.length % 2 = 0)
    (hname : amfStringRead src s = (name, s₁)) (hok : amfDataGetErrorCode name = .ok)
    (h : Accounted src .value s₁ element s₂ x)
    (hrest : Accounted src (.pairs kind
      (list ++ [amfStr (cString (amfStringGetBytes name)), element])) s₂ d s' y)
    (hmore : 2 ≤ unread src s₂) :
    Accounted src (.pairs kind list) s d s' ((nameSlack name).plus (x.plus y)) := by
  have hnamed := (unread_of_name hname hok).2
  have hkept := size_nameSlack hname hok
  have helement := h.size
  have hentries := hrest.size
  have hzero : x.missing = 0 := by
    rcases h.missing with hzero | ⟨-, hend⟩
    · exact hzero
    · omega
  have hbase : (Frame.pairs kind
      (list ++ [amfStr (cString (amfStringGetBytes name)), element])).base =
      (Frame.pairs kind list).base + 2 +
        amfStringGetSize (amfStr (cString (amfStringGetBytes name)) : AmfData N) +
        amfDataSize element := by
    cases kind <;> simp only [Frame.base, amfPairsSize_append _ hpaired, amfPairsSize] <;> omega
  have hvalue : (Frame.value : Frame N).base = 0 := rfl
  have hnone : (nameSlack name).missing = 0 := rfl
  refine ⟨?_, ?_⟩
  · simp only [Slack.plus]
    omega
  · simp only [Slack.plus, hzero, hnone, Nat.zero_add]
    exact hrest.missing

omit [NumberImage N] in
theorem accounted_element {n : Nat} {list : List (AmfData N)} {s s₁ s' : σ}
    {element d : AmfData N} {x y : Slack} (h : Accounted src .value s element s₁ x)
    (hrest : Accounted src (.elements n (list ++ [element])) s₁ d s' y)
    (hmore : unread src s₁ = 0 → y.missing = 0 ∧ unread src s' = 0) :
    Accounted src (.elements (n + 1) list) s d s' (x.plus y) := by
  have helement := h.size
  have helements := hrest.size
  have hbase : (Frame.elements n (list ++ [element])).base =
      (Frame.elements (n + 1) list).base + amfDataSize element := by
    simp only [Frame.base, amfElementsSize_append, amfElementsSize]
    omega
  have hvalue : (Frame.value : Frame N).base = 0 := rfl
  refine ⟨?_, h.plus hrest hmore⟩
  simp only [Slack.plus]
  omega

/-! ## All runs -/

theorem amfDataRead_account {fuel : Nat} (ih : Accounts N src fuel) {s s' : σ} {d : AmfData N}
    (h : amfDataRead src (fuel + 1) s = some (d, s')) (hok : amfDataGetErrorCode d = .ok) :
    Accounted src .value s d s' (valueSlack N src (fuel + 1) s) := by
  rw [amfDataRead] at h
  rw [valueSlack]
  cases hr : src.read 1 s with
  | mk bs s₁ =>
    rw [hr] at h
    cases bs with
    | nil =>
      cases h
      cases hok
    | cons type bs =>
      have hbyte := unread_of_byte hr
      have hscalar : ∀ t, amfScalarRead src t s₁ = some (d, s') →
          Accounted src .value s d s' .none := fun t ht => by
        have hread := unread_of_scalar ht hok
        refine ⟨?_, Or.inl rfl⟩
        simp only [Slack.none, Frame.base]
        omega
      dsimp only at h ⊢
      cases ht : AmfType.ofCode type with
      | none =>
        rw [ht] at h
        cases h
        cases hok
      | some t =>
        rw [ht] at h
        cases t with
        | number => exact hscalar .number h
        | boolean => exact hscalar .boolean h
        | string => exact hscalar .string h
        | null => exact hscalar .null h
        | undefined => exact hscalar .undefined h
        | date => exact hscalar .date h
        | object =>
          have hrun := ih.pairs (show amfPairsRead src .object _ _ _ = _ from h) hok rfl
          refine ⟨?_, hrun.missing⟩
          have hsize := hrun.size
          simp only [Frame.base, amfPairsSize] at hsize ⊢
          omega
        | associativeArray =>
          dsimp only at h
          split at h
          · cases h
            cases hok
          · rename_i hmarker
            have hread := unread_of_full (Nat.le_of_not_lt hmarker)
            have hrun := ih.pairs (show amfPairsRead src .associativeArray _ _ _ = _ from h) hok rfl
            refine ⟨?_, hrun.missing⟩
            have hsize := hrun.size
            simp only [Frame.base, amfPairsSize] at hsize ⊢
            omega
        | array =>
          dsimp only at h
          split at h
          · cases h
            cases hok
          · rename_i hcount
            have hread := unread_of_full (Nat.le_of_not_lt hcount)
            have hrun := ih.elements h hok
            refine ⟨?_, hrun.missing⟩
            have hsize := hrun.size
            simp only [Frame.base, amfElementsSize] at hsize ⊢
            omega
        | endTag =>
          cases h
          cases hok
        | xml =>
          cases h
          cases hok
        | «class» =>
          cases h
          cases hok

theorem amfPairsRead_account {fuel : Nat} (ih : Accounts N src fuel) {kind : PairsKind}
    {list : List (AmfData N)} {s s' : σ} {d : AmfData N}
    (h : amfPairsRead src kind (fuel + 1) list s = some (d, s'))
    (hok : amfDataGetErrorCode d = .ok) (hpaired : list.length % 2 = 0) :
    Accounted src (.pairs kind list) s d s' (pairsSlack N src kind (fuel + 1) s) := by
  rw [pairsSlack]
  cases pairsTurn src h with
  | noName hname => exact absurd hok hname
  | badValue hname hcode hread hbad => exact absurd hok hbad
  | close hname hcode hread hstop =>
    rw [hname]
    dsimp only
    rw [hread]
    dsimp only
    rw [if_pos hstop]
    exact accounted_close hname hcode hread
  | entry hname hcode hread hstop helement hrest =>
    rw [hname]
    dsimp only
    rw [hread]
    dsimp only
    rw [if_neg hstop]
    have hpaired' : ∀ name value : AmfData N, (list ++ [name, value]).length % 2 = 0 := by
      intro name value
      rw [List.length_append, List.length_cons, List.length_singleton]
      omega
    exact accounted_entry hpaired hname hcode (ih.data hread helement)
      (ih.pairs hrest hok (hpaired' ..)) (unread_of_pairs ((derives src fuel).pairs hrest) hok)

theorem amfArrayRead_account {fuel : Nat} (ih : Accounts N src fuel) {n : Nat}
    {list : List (AmfData N)} {s s' : σ} {d : AmfData N}
    (h : amfArrayRead src (fuel + 1) n list s = some (d, s'))
    (hok : amfDataGetErrorCode d = .ok) :
    Accounted src (.elements n list) s d s' (elementsSlack N src (fuel + 1) n s) := by
  cases n with
  | zero =>
    rw [amfArrayRead] at h
    cases h
    refine ⟨?_, Or.inl rfl⟩
    simp only [elementsSlack, Slack.none, amfDataSize, Frame.base]
    omega
  | succ n =>
    rw [amfArrayRead] at h
    rw [elementsSlack]
    cases he : (amfDataRead src fuel s : Option (AmfData N × σ)) with
    | none =>
      rw [he] at h
      cases h
    | some r =>
      obtain ⟨element, s₁⟩ := r
      rw [he] at h
      dsimp only at h ⊢
      split at h
      · cases h
        exact absurd hok ‹_›
      · rename_i helement
        have hcode := Classical.not_not.mp helement
        have hnull := isNull_of_ok hcode
        simp only [amfListPush, hnull, Bool.false_eq_true, if_false] at h
        refine accounted_element (ih.data he hcode) (ih.elements h hok) fun hend => ?_
        -- at the end of the input only an empty loop ends in a value
        cases (derives src fuel).array h with
        | done =>
          refine ⟨?_, hend⟩
          cases fuel <;> rfl
        | badElement hrun hbad => exact absurd hok hbad
        | element hrun hgood =>
          have hpos := unread_of_ok hrun hgood
          omega

theorem accounts (N : Type) [NumberImage N] (src : ByteSource σ) (fuel : Nat) :
    Accounts N src fuel := by
  induction fuel with
  | zero =>
    constructor
    · intro s s' d h
      simp [amfDataRead] at h
    · intro kind list s s' d h
      cases kind with
      | object => simp [amfPairsRead, amfObjectRead] at h
      | associativeArray => simp [amfPairsRead, amfAssociativeArrayRead] at h
    · intro n list s s' d h
      simp [amfArrayRead] at h
  | succ fuel ih =>
    exact ⟨amfDataRead_account ih, amfPairsRead_account ih, amfArrayRead_account ih⟩

/-- From any source the reader returns; when it returns a value, the size of the value is the number
of bytes read exactly if as many bytes were read and not kept as are missing, at most one. -/
theorem amfDataSize_eq_read_iff {fuel : Nat} {s : σ} (h : unread src s < fuel) :
    ∃ (data : AmfData N) (s' : σ), amfDataRead src fuel s = some (data, s') ∧
      unread src s' ≤ unread src s ∧
      (amfDataGetErrorCode data = .ok →
        (valueSlack N src fuel s).missing ≤ 1 ∧
        (unread src s - unread src s' = amfDataSize data ↔
          (valueSlack N src fuel s).spare = (valueSlack N src fuel s).missing)) := by
  obtain ⟨data, s', hread, hle, -⟩ := (enough (N := N) src fuel).data s h
  refine ⟨data, s', hread, hle, fun hok => ?_⟩
  have hrun := (accounts N src fuel).data hread hok
  have hsize := hrun.size
  simp only [Frame.base] at hsize
  refine ⟨?_, ?_⟩
  · rcases hrun.missing with hzero | ⟨hone, -⟩
    · omega
    · omega
  · omega

end

/-! ## An associative array ended by its name alone -/

/-- An associative array with an empty name before a number: the number is read and not kept. -/
def endedByName : Bytes := [8, 0, 0, 0, 0, 0, 0, 0, 0x40, 0, 0, 0, 0, 0, 0, 0]

theorem amfDataSize_eq_read_iff_endedByName :
    ∃ (data : AmfData UInt64) (s' : InFile),
      amfDataRead fileSource 17 (InFile.ofContent endedByName) = some (data, s') ∧
      unread fileSource s' ≤ unread fileSource (InFile.ofContent endedByName) ∧
      (amfDataGetErrorCode data = .ok →
        (valueSlack UInt64 fileSource 17 (InFile.ofContent endedByName)).missing ≤ 1 ∧
        (unread fileSource (InFile.ofContent endedByName) - unread fileSource s' =
            amfDataSize data ↔
          (valueSlack UInt64 fileSource 17 (InFile.ofContent endedByName)).spare =
            (valueSlack UInt64 fileSource 17 (InFile.ofContent endedByName)).missing)) :=
  amfDataSize_eq_read_iff (by decide)

/-- Sixteen bytes are read of a value of eight. -/
theorem amfDataSize_ne_read :
    ¬ ∀ (bytes : Bytes) (data : AmfData UInt64) (stream : InFile),
      amfDataFileRead (InFile.ofContent bytes) = (data, stream) →
      amfDataGetErrorCode data = .ok → stream.pos = amfDataSize data := by
  intro h
  have hsize := h endedByName _ _ rfl rfl
  cases hsize

end FlvMeta
