import FlvMeta.Amf.Simulation

/-!
# Runs in front of padding

A run that ends with an end of file could have read on. In front of enough bytes `0xFF`, which are
no type and make the longest names, every run ends, and never with an end of file
(`amfDataRead_padded`): a value that begins in the padding is of unknown type, which ends the
container it is in. Each container begins with a byte before the padding, and has to be paid for
once.
-/

namespace FlvMeta

open Endian ByteSource

variable {σ N : Type} {src : ByteSource σ}

/-- Only padding is left. -/
def Dregs (src : ByteSource σ) (c : Nat) (s : σ) : Prop :=
  ∃ m, src.rest s = List.replicate m 0xFF ∧ c ≤ m

/-- The padding suffices for what the bytes in front of it may begin, and for `c` more bytes. -/
def Padded (src : ByteSource σ) (c : Nat) (s : σ) : Prop :=
  ∃ xs m, src.rest s = xs ++ List.replicate m 0xFF ∧ 70000 * xs.length + c ≤ m

theorem Dregs.padded {c : Nat} {s : σ} (h : Dregs src c s) : Padded src c s := by
  obtain ⟨m, hrest, hm⟩ := h
  exact ⟨[], m, hrest, by simpa using hm⟩

theorem Padded.mono {c c' : Nat} {s : σ} (h : Padded src c s) (hle : c' ≤ c) : Padded src c' s := by
  obtain ⟨xs, m, hrest, hm⟩ := h
  exact ⟨xs, m, hrest, by omega⟩

theorem Dregs.read {c n : Nat} {s : σ} (h : Dregs src (c + n) s) :
    (src.read n s).1 = List.replicate n 0xFF ∧ Dregs src c (src.read n s).2 := by
  obtain ⟨m, hrest, hm⟩ := h
  have hn : n ≤ (src.rest s).length := by
    rw [hrest, List.length_replicate]
    omega
  rw [src.read_of_le hn]
  refine ⟨?_, m - n, ?_, by omega⟩
  · rw [hrest, List.take_replicate, Nat.min_eq_left (by omega)]
  · rw [src.rest_advance, hrest, List.drop_replicate]

/-- A read that begins before the padding leaves more of it than needed; otherwise it delivers
padding. -/
theorem Padded.read {c n : Nat} (hn : 0 < n) {s : σ} (h : Padded src (c + n) s) :
    (src.read n s).1.length = n ∧
      (Padded src (c + 70000) (src.read n s).2 ∨
        ((src.read n s).1 = List.replicate n 0xFF ∧ Dregs src c (src.read n s).2)) := by
  obtain ⟨xs, m, hrest, hm⟩ := h
  have hle : n ≤ (src.rest s).length := by
    rw [hrest, List.length_append, List.length_replicate]
    omega
  refine ⟨?_, ?_⟩
  · rw [src.read_of_le hle, List.length_take, Nat.min_eq_left hle]
  · cases xs with
    | nil => exact .inr (Dregs.read ⟨m, hrest, by simpa using hm⟩)
    | cons x xs =>
      refine .inl ⟨(x :: xs).drop n, m - (n - (x :: xs).length), ?_, ?_⟩
      · rw [src.read_of_le hle, src.rest_advance, hrest, List.drop_append, List.drop_replicate]
      · rw [List.length_cons] at hm
        rw [List.length_drop, List.length_cons]
        omega

theorem Padded.read_then {c n : Nat} {s : σ} (h : Padded src (c + n) s) :
    (src.read n s).1.length = n ∧ Padded src c (src.read n s).2 := by
  by_cases hn : 0 < n
  · obtain ⟨hlen, hnext | ⟨-, hdregs⟩⟩ := h.read hn
    · exact ⟨hlen, hnext.mono (Nat.le_add_right c 70000)⟩
    · exact ⟨hlen, hdregs.padded⟩
  · obtain rfl : n = 0 := by omega
    rw [src.read_of_le (Nat.zero_le _), src.advance_zero]
    exact ⟨by simp, h⟩

/-! ## Values without a loop -/

theorem amfStringRead_padded {c : Nat} {s : σ} (h : Padded src (c + 65537) s) :
    amfDataGetErrorCode (amfStringRead src s : AmfData N × σ).1 = .ok ∧
      (Padded src (c + 65537) (amfStringRead src s : AmfData N × σ).2 ∨
        Dregs src c (amfStringRead src s : AmfData N × σ).2) := by
  obtain ⟨hlen, hnext⟩ := Padded.read (by decide)
    (h.mono (by omega : c + 65535 + 2 ≤ c + 65537))
  rw [amfStringRead_eq, if_pos hlen, amfStringBytesRead]
  have hsize := swapUint16_lt (ofLE (src.read 2 s).1)
  rcases hnext with hnext | ⟨hbytes, hdregs⟩
  · by_cases hzero : swapUint16 (ofLE (src.read 2 s).1) = 0
    · rw [if_pos hzero]
      exact ⟨rfl, .inl (hnext.mono (by omega))⟩
    · rw [if_neg hzero]
      have hmore : Padded src (c + 65537 + swapUint16 (ofLE (src.read 2 s).1))
          (src.read 2 s).2 := hnext.mono (by omega)
      obtain ⟨hlen', hnext'⟩ := hmore.read_then
      rw [if_pos hlen']
      exact ⟨rfl, .inl hnext'⟩
  · have hsize : swapUint16 (ofLE (src.read 2 s).1) = 65535 := by
      rw [hbytes]
      rfl
    obtain ⟨hbytes', hdregs'⟩ := hdregs.read
    rw [hsize, if_neg (by decide), hbytes', if_pos List.length_replicate]
    exact ⟨rfl, .inr hdregs'⟩

section

variable [NumberImage N]

theorem amfScalarRead_padded {c : Nat} {t : AmfType} {s s' : σ} {d : AmfData N}
    (h : Padded src (c + 65537) s) (hread : amfScalarRead src t s = some (d, s')) :
    amfDataGetErrorCode d ≠ .eof ∧ Padded src c s' := by
  cases t with
  | number =>
    obtain ⟨hlen, hnext⟩ := Padded.read_then (h.mono (by omega : c + 8 ≤ c + 65537))
    rw [amfScalarRead, Option.some.injEq, amfNumberRead] at hread
    dsimp only at hread
    rw [if_pos hlen] at hread
    cases hread
    exact ⟨by simp [amfDataGetErrorCode], hnext⟩
  | boolean =>
    obtain ⟨hlen, hnext⟩ := Padded.read_then (h.mono (by omega : c + 1 ≤ c + 65537))
    rw [amfScalarRead, Option.some.injEq, amfBooleanRead] at hread
    dsimp only at hread
    rw [if_pos hlen] at hread
    cases hread
    exact ⟨by simp [amfDataGetErrorCode], hnext⟩
  | date =>
    obtain ⟨hlen, hnext⟩ := Padded.read_then (h.mono (by omega : c + 2 + 8 ≤ c + 65537))
    obtain ⟨hlen', hnext'⟩ := hnext.read_then
    rw [amfScalarRead, Option.some.injEq, amfDateRead] at hread
    dsimp only at hread
    rw [if_pos hlen, if_pos hlen'] at hread
    cases hread
    exact ⟨by simp [amfDataGetErrorCode], hnext'⟩
  | string =>
    obtain ⟨hok, hnext⟩ := amfStringRead_padded (N := N) h
    rw [amfScalarRead, Option.some.injEq] at hread
    rw [hread] at hok hnext
    refine ⟨by rw [hok]; decide, ?_⟩
    rcases hnext with hnext | hdregs
    · exact hnext.mono (by omega)
    · exact hdregs.padded
  | null | undefined | xml | «class» | endTag =>
    cases hread
    exact ⟨by simp [amfDataGetErrorCode, amfDataError], h.mono (by omega)⟩
  | object | associativeArray | array => cases hread

/-- A value that begins in the padding. -/
theorem amfDataRead_dregs {c fuel : Nat} {s s' : σ} {d : AmfData N} (h : Dregs src (c + 1) s)
    (hread : amfDataRead src fuel s = some (d, s')) :
    amfDataGetErrorCode d = .unknownType ∧ Padded src c s' := by
  cases fuel with
  | zero => simp [amfDataRead] at hread
  | succ fuel =>
    obtain ⟨hbytes, hnext⟩ := h.read
    have htype : amfTypeRead src fuel 0xFF (src.read 1 s).2 =
        (some (amfDataError .unknownType, (src.read 1 s).2) : Option (AmfData N × σ)) := rfl
    have hbyte : (List.replicate 1 (0xFF : UInt8)).getD 0 0 = 0xFF := rfl
    rw [amfDataRead_succ, hbytes, if_neg (by simp), hbyte, htype] at hread
    cases hread
    exact ⟨rfl, hnext.padded⟩

/-! ## Runs with a given fuel -/

structure PaddedRuns (src : ByteSource σ) (N : Type) [NumberImage N] (fuel : Nat) : Prop where
  data : ∀ {c : Nat} {s s' : σ} {d : AmfData N}, Padded src (c + 1) s →
    amfDataRead src fuel s = some (d, s') → amfDataGetErrorCode d ≠ .eof ∧
      (Padded src (c + 1) s' ∨ (amfDataGetErrorCode d = .unknownType ∧ Padded src c s'))
  pairs : ∀ {kind : PairsKind} {list : List (AmfData N)} {c : Nat} {s s' : σ} {d : AmfData N},
    Padded src (c + 65538) s → amfPairsRead src kind fuel list s = some (d, s') →
    amfDataGetErrorCode d ≠ .eof ∧ Padded src c s'
  elements : ∀ {n : Nat} {list : List (AmfData N)} {c : Nat} {s s' : σ} {d : AmfData N},
    Padded src (c + 1) s → amfArrayRead src fuel n list s = some (d, s') →
    amfDataGetErrorCode d ≠ .eof ∧ Padded src c s'

theorem PaddedRuns.type {fuel : Nat} (ih : PaddedRuns src N fuel) {c : Nat} {b : UInt8}
    {s s' : σ} {d : AmfData N} (h : Padded src (c + 70000) s)
    (hread : amfTypeRead src fuel b s = some (d, s')) :
    amfDataGetErrorCode d ≠ .eof ∧ Padded src (c + 1) s' := by
  have hpairs : Padded src (c + 1 + 65538 + 4) s := h.mono (by omega)
  have helements : Padded src (c + 1 + 1 + 4) s := h.mono (by omega)
  unfold amfTypeRead at hread
  cases htype : AmfType.ofCode b with
  | none =>
    simp only [htype] at hread
    cases hread
    exact ⟨by simp, h.mono (by omega)⟩
  | some t =>
    simp only [htype] at hread
    cases t with
    | object => exact ih.pairs (hpairs.mono (by omega)) hread
    | associativeArray =>
      obtain ⟨hlen, hnext⟩ := hpairs.read_then
      dsimp only at hread
      rw [if_neg (by omega)] at hread
      exact ih.pairs hnext hread
    | array =>
      obtain ⟨hlen, hnext⟩ := helements.read_then
      dsimp only at hread
      rw [if_neg (by omega)] at hread
      exact ih.elements hnext hread
    | _ => exact amfScalarRead_padded (h.mono (by omega : c + 1 + 65537 ≤ c + 70000)) hread

theorem PaddedRuns.data_succ {fuel : Nat} (ih : PaddedRuns src N fuel) {c : Nat} {s s' : σ}
    {d : AmfData N} (h : Padded src (c + 1) s)
    (hread : amfDataRead src (fuel + 1) s = some (d, s')) : amfDataGetErrorCode d ≠ .eof ∧
      (Padded src (c + 1) s' ∨ (amfDataGetErrorCode d = .unknownType ∧ Padded src c s')) := by
  obtain ⟨hlen, hnext⟩ := h.read (by decide)
  rw [amfDataRead_succ, if_neg (by omega)] at hread
  rcases hnext with hnext | ⟨hbytes, hdregs⟩
  · obtain ⟨hcode, hnext'⟩ := ih.type hnext hread
    exact ⟨hcode, .inl hnext'⟩
  · have hbyte : (List.replicate 1 (0xFF : UInt8)).getD 0 0 = 0xFF := rfl
    have htype : amfTypeRead src fuel 0xFF (src.read 1 s).2 =
        (some (amfDataError .unknownType, (src.read 1 s).2) : Option (AmfData N × σ)) := rfl
    rw [hbytes, hbyte, htype] at hread
    cases hread
    exact ⟨by simp, .inr ⟨rfl, hdregs.padded⟩⟩

theorem PaddedRuns.pairs_succ {fuel : Nat} (ih : PaddedRuns src N fuel) {kind : PairsKind}
    {list : List (AmfData N)} {c : Nat} {s s' : σ} {d : AmfData N} (h : Padded src (c + 65538) s)
    (hread : amfPairsRead src kind (fuel + 1) list s = some (d, s')) :
    amfDataGetErrorCode d ≠ .eof ∧ Padded src c s' := by
  have hbuild : ∀ list : List (AmfData N), amfDataGetErrorCode (kind.build list) ≠ .eof := by
    intro list
    cases kind with
    | _ => simp [PairsKind.build, amfDataGetErrorCode]
  obtain ⟨hname, hnext⟩ := amfStringRead_padded (N := N)
    (h.mono (by omega : c + 1 + 65537 ≤ c + 65538))
  rw [amfPairsRead_succ, if_neg (by simp [hname]), Option.bind_eq_some_iff] at hread
  obtain ⟨⟨element, s₂⟩, helement, hread⟩ := hread
  unfold amfPairsStep at hread
  dsimp only at hread
  rcases hnext with hnext | hdregs
  · obtain ⟨hcode, hnext'⟩ := ih.data (c := c + 65537) (hnext.mono (by omega)) helement
    have hrest : Padded src c s₂ := by
      rcases hnext' with hnext' | ⟨-, hnext'⟩
      · exact hnext'.mono (by omega)
      · exact hnext'.mono (by omega)
    by_cases hstop : kind.Stops (amfStringRead src s : AmfData N × σ).1
        (amfDataGetErrorCode element)
    · rw [if_pos hstop] at hread
      cases hread
      exact ⟨hbuild list, hrest⟩
    · rw [if_neg hstop] at hread
      by_cases hok : amfDataGetErrorCode element ≠ .ok
      · rw [if_pos hok] at hread
        cases hread
        exact ⟨by simpa using hcode, hrest⟩
      · rw [if_neg hok] at hread
        rcases hnext' with hnext' | ⟨hunknown, -⟩
        · exact ih.pairs hnext' hread
        · rw [hunknown] at hok
          exact absurd (by decide) hok
  · -- the name ends in the padding, and the element behind it ends the loop
    obtain ⟨hunknown, hrest⟩ := amfDataRead_dregs hdregs helement
    have hstop : kind.Stops (amfStringRead src s : AmfData N × σ).1
        (amfDataGetErrorCode element) := .inr (.inr hunknown)
    rw [if_pos hstop] at hread
    cases hread
    exact ⟨hbuild list, hrest⟩

theorem PaddedRuns.elements_succ {fuel : Nat} (ih : PaddedRuns src N fuel) {n : Nat}
    {list : List (AmfData N)} {c : Nat} {s s' : σ} {d : AmfData N} (h : Padded src (c + 1) s)
    (hread : amfArrayRead src (fuel + 1) n list s = some (d, s')) :
    amfDataGetErrorCode d ≠ .eof ∧ Padded src c s' := by
  cases n with
  | zero =>
    rw [amfArrayRead] at hread
    cases hread
    exact ⟨by simp [amfDataGetErrorCode], h.mono (by omega)⟩
  | succ n =>
    rw [amfArrayRead_succ, Option.bind_eq_some_iff] at hread
    obtain ⟨⟨element, s₁⟩, helement, hread⟩ := hread
    obtain ⟨hcode, hnext⟩ := ih.data h helement
    dsimp only at hread
    by_cases hok : amfDataGetErrorCode element ≠ .ok
    · rw [if_pos hok] at hread
      cases hread
      refine ⟨by simpa using hcode, ?_⟩
      rcases hnext with hnext | ⟨-, hnext⟩
      · exact hnext.mono (by omega)
      · exact hnext
    · rw [if_neg hok] at hread
      rcases hnext with hnext | ⟨hunknown, -⟩
      · exact ih.elements hnext hread
      · rw [hunknown] at hok
        exact absurd (by decide) hok

theorem paddedRuns (fuel : Nat) : PaddedRuns src N fuel := by
  induction fuel with
  | zero =>
    constructor
    · intro c s s' d _ h
      simp [amfDataRead] at h
    · intro kind list c s s' d _ h
      cases kind with
      | object => simp [amfPairsRead, amfObjectRead] at h
      | associativeArray => simp [amfPairsRead, amfAssociativeArrayRead] at h
    · intro n list c s s' d _ h
      simp [amfArrayRead] at h
  | succ fuel ih =>
    exact ⟨ih.data_succ, ih.pairs_succ, ih.elements_succ⟩

/-- A run in front of enough padding does not end with an end of file, and leaves padding. -/
theorem amfDataRead_padded {c fuel : Nat} {s s' : σ} {d : AmfData N} (h : Padded src (c + 1) s)
    (hread : amfDataRead src fuel s = some (d, s')) :
    amfDataGetErrorCode d ≠ .eof ∧ Padded src c s' := by
  obtain ⟨hcode, hnext⟩ := (paddedRuns fuel).data h hread
  refine ⟨hcode, ?_⟩
  rcases hnext with hnext | ⟨-, hnext⟩
  · exact hnext.mono (Nat.le_succ c)
  · exact hnext

end

end FlvMeta
