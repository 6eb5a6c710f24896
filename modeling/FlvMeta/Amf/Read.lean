import FlvMeta.Amf.Write
import FlvMeta.Base.Source

/-!
# Decoding AMF values

The reader is generic in the byte source it reads from (`amf_read_proc`); the two sources of the
program are a file and a memory buffer. Its four loops call each other, so they are written by
recursion on a fuel that bounds the number of nested and successive calls; `none` means that
it ran out, which does not happen when the fuel exceeds the unread input
(`amfDataRead_isSome`). Files and buffers are read with that fuel, so `amfDataFileRead` and
`amfDataBufferRead` are total.
-/

namespace FlvMeta

open Endian Stdio

variable {σ N : Type} [NumberImage N]

section

variable (src : ByteSource σ)

/-- The number with a given memory image. -/
def numberOfImage (val : Bytes) : N := NumberImage.ofBits (UInt64.ofNat (swapNumber64 (ofLE val)))

def amfNumberRead (s : σ) : AmfData N × σ :=
  match src.read 8 s with
  | (val, s) => if val.length = 8 then (.number (numberOfImage val), s) else (amfDataError .eof, s)

def amfBooleanRead (s : σ) : AmfData N × σ :=
  match src.read 1 s with
  | (val, s) => if val.length = 1 then (.boolean (val.getD 0 0), s) else (amfDataError .eof, s)

def amfStringRead (s : σ) : AmfData N × σ :=
  match src.read 2 s with
  | (strsize, s) =>
    if strsize.length < 2 then (amfDataError .eof, s)
    else
      let size := swapUint16 (ofLE strsize)
      if size = 0 then (amfStringNew [] 0, s)
      else
        match src.read size s with
        | (buffer, s) =>
          if buffer.length = size then (amfStringNew buffer (UInt16.ofNat size), s)
          else (amfDataError .eof, s)

def amfDateRead (s : σ) : AmfData N × σ :=
  match src.read 8 s with
  | (milliseconds, s) =>
    if milliseconds.length = 8 then
      match src.read 2 s with
      | (timezone, s) =>
        if timezone.length = 2 then
          (.date (numberOfImage milliseconds) (UInt16.ofNat (swapUint16 (ofLE timezone))), s)
        else (amfDataError .eof, s)
    else (amfDataError .eof, s)

mutual

def amfDataRead : Nat → σ → Option (AmfData N × σ)
  | 0, _ => none
  | fuel + 1, s =>
    match src.read 1 s with
    | ([], s) => some (amfDataError .eof, s)
    | (type :: _, s) =>
      match AmfType.ofCode type with
      | some .number => some (amfNumberRead src s)
      | some .boolean => some (amfBooleanRead src s)
      | some .string => some (amfStringRead src s)
      | some .object => amfObjectRead fuel [] s
      | some .null => some (.null .ok, s)
      | some .undefined => some (.undefined, s)
      | some .associativeArray =>
        -- the size marker is read and ignored
        match src.read 4 s with
        | (size, s) =>
          if size.length < 4 then some (amfDataError .eof, s)
          else amfAssociativeArrayRead fuel [] s
      | some .array =>
        match src.read 4 s with
        | (arraySize, s) =>
          if arraySize.length < 4 then some (amfDataError .eof, s)
          else amfArrayRead fuel (swapUint32 (ofLE arraySize)) [] s
      | some .date => some (amfDateRead src s)
      | some .xml => some (amfDataError .unsupportedType, s)
      | some .class => some (amfDataError .unsupportedType, s)
      | some .endTag => some (amfDataError .endTag, s)
      | none => some (amfDataError .unknownType, s)

/-- The loop of `amf_object_read`; `list` holds the entries read so far. -/
def amfObjectRead : Nat → List (AmfData N) → σ → Option (AmfData N × σ)
  | 0, _, _ => none
  | fuel + 1, list, s =>
    match (amfStringRead src s : AmfData N × σ) with
    | (name, s) =>
      if amfDataGetErrorCode name ≠ .ok then some (amfDataError (amfDataGetErrorCode name), s)
      else
        match amfDataRead fuel s with
        | none => none
        | some (element, s) =>
          let errorCode := amfDataGetErrorCode element
          if errorCode = .endTag ∨ errorCode = .unknownType then some (.object list, s)
          else if errorCode ≠ .ok then some (amfDataError errorCode, s)
          else
            match amfObjectAdd (.object list) (cString (amfStringGetBytes name)) element with
            | (p, data) =>
              if p.isNull then some (.nullPtr, s) else amfObjectRead fuel data.listData s

/-- The loop of `amf_associative_array_read`, which also stops after an empty name. -/
def amfAssociativeArrayRead : Nat → List (AmfData N) → σ → Option (AmfData N × σ)
  | 0, _, _ => none
  | fuel + 1, list, s =>
    match (amfStringRead src s : AmfData N × σ) with
    | (name, s) =>
      if amfDataGetErrorCode name ≠ .ok then some (amfDataError (amfDataGetErrorCode name), s)
      else
        match amfDataRead fuel s with
        | none => none
        | some (element, s) =>
          let errorCode := amfDataGetErrorCode element
          if amfStringGetSize name = 0 ∨ errorCode = .endTag ∨ errorCode = .unknownType then
            some (.associativeArray list, s)
          else if errorCode ≠ .ok then some (amfDataError errorCode, s)
          else
            match amfObjectAdd (.associativeArray list) (cString (amfStringGetBytes name))
              element with
            | (p, data) =>
              if p.isNull then some (.nullPtr, s)
              else amfAssociativeArrayRead fuel data.listData s

/-- The loop of `amf_array_read`, with the number of elements still to read. -/
def amfArrayRead : Nat → Nat → List (AmfData N) → σ → Option (AmfData N × σ)
  | 0, _, _, _ => none
  | _ + 1, 0, list, s => some (.array list, s)
  | fuel + 1, n + 1, list, s =>
    match amfDataRead fuel s with
    | none => none
    | some (element, s) =>
      if amfDataGetErrorCode element ≠ .ok then
        some (amfDataError (amfDataGetErrorCode element), s)
      else
        match amfListPush list element with
        | (p, list) => if p.isNull then some (.nullPtr, s) else amfArrayRead fuel n list s

end

end

/-! ## The two sources -/

/-- `file_read`: `fread` on a file. -/
def fileSource : ByteSource InFile where
  readProc := InFile.fread
  rest := InFile.rest
  advance := InFile.advance
  read_full h := InFile.fread_of_le h
  read_short h := InFile.length_fread_lt h
  rest_read_le n s := InFile.rest_fread_le n s
  rest_advance := InFile.rest_advance
  advance_advance m n s := InFile.advance_advance m n s
  advance_zero := InFile.advance_zero

/-- `buffer_context`; the address of the next byte is kept relative to the start. -/
structure BufferContext where
  buffer : Bytes
  current : Nat
deriving DecidableEq, Repr

namespace BufferContext

def rest (ctxt : BufferContext) : Bytes := ctxt.buffer.drop ctxt.current

def advance (n : Nat) (ctxt : BufferContext) : BufferContext :=
  { ctxt with current := ctxt.current + n }

end BufferContext

/-- `buffer_read`: all of the bytes asked for, or none. -/
def bufferRead (size : Nat) (ctxt : BufferContext) : Bytes × BufferContext :=
  if ctxt.current + size ≤ ctxt.buffer.length then (ctxt.rest.take size, ctxt.advance size)
  else ([], ctxt)

def bufferSource : ByteSource BufferContext where
  readProc := bufferRead
  rest := BufferContext.rest
  advance := BufferContext.advance
  read_full {n s} h := by
    by_cases hn : s.current + n ≤ s.buffer.length
    · exact if_pos hn
    · have h0 : n = 0 := by
        simp only [BufferContext.rest, List.length_drop] at h
        omega
      subst h0
      simp [bufferRead, BufferContext.advance]
  read_short {n s} h := by
    simp only [BufferContext.rest, List.length_drop] at h
    unfold bufferRead
    split
    · omega
    · simp only [List.length_nil]
      omega
  rest_read_le n s := by
    unfold bufferRead
    split
    · simp [BufferContext.rest, BufferContext.advance]
      omega
    · simp
  rest_advance n s := by simp [BufferContext.rest, BufferContext.advance, List.drop_drop]
  advance_advance m n s := by simp [BufferContext.advance, Nat.add_assoc]
  advance_zero s := rfl

/-! ## Termination -/

section

variable (src : ByteSource σ)

/-- The amount of unread input. -/
def unread (s : σ) : Nat := (src.rest s).length

theorem unread_read (n : Nat) (s : σ) :
    unread src (src.read n s).2 + (src.read n s).1.length ≤ unread src s :=
  src.rest_read_le n s

theorem amfNumberRead_unread (s : σ) :
    unread src (amfNumberRead src s : AmfData N × σ).2 ≤ unread src s := by
  have h := unread_read src 8 s
  unfold amfNumberRead
  generalize src.read 8 s = r at h ⊢
  obtain ⟨val, s₁⟩ := r
  dsimp only at h ⊢
  split <;> (dsimp only; omega)

omit [NumberImage N] in
theorem amfBooleanRead_unread (s : σ) :
    unread src (amfBooleanRead src s : AmfData N × σ).2 ≤ unread src s := by
  have h := unread_read src 1 s
  unfold amfBooleanRead
  generalize src.read 1 s = r at h ⊢
  obtain ⟨val, s₁⟩ := r
  dsimp only at h ⊢
  split <;> (dsimp only; omega)

theorem amfDateRead_unread (s : σ) :
    unread src (amfDateRead src s : AmfData N × σ).2 ≤ unread src s := by
  have h := unread_read src 8 s
  unfold amfDateRead
  generalize src.read 8 s = r at h ⊢
  obtain ⟨milliseconds, s₁⟩ := r
  dsimp only at h ⊢
  split
  · have h' := unread_read src 2 s₁
    split <;> (dsimp only; omega)
  · dsimp only
    omega

omit [NumberImage N] in
theorem amfStringRead_unread (s : σ) :
    unread src (amfStringRead src s : AmfData N × σ).2 ≤ unread src s ∧
      (amfDataGetErrorCode (amfStringRead src s : AmfData N × σ).1 = .ok →
        unread src (amfStringRead src s : AmfData N × σ).2 + 2 ≤ unread src s) := by
  have h := unread_read src 2 s
  unfold amfStringRead
  generalize src.read 2 s = r at h ⊢
  obtain ⟨strsize, s₁⟩ := r
  dsimp only at h ⊢
  split
  · exact ⟨by dsimp only; omega, fun hok => by cases hok⟩
  · split
    · exact ⟨by dsimp only; omega, fun _ => by dsimp only; omega⟩
    · have h' := unread_read src (swapUint16 (ofLE strsize)) s₁
      split
      · exact ⟨by dsimp only; omega, fun _ => by dsimp only; omega⟩
      · exact ⟨by dsimp only; omega, fun hok => by cases hok⟩

/-- What a run of the reader on `s` delivers: a result, no more unread input than before, and
at least one byte less when the result is a value. -/
def Delivers (s : σ) (r : Option (AmfData N × σ)) : Prop :=
  ∃ d s', r = some (d, s') ∧ unread src s' ≤ unread src s ∧
    (amfDataGetErrorCode d = .ok → unread src s' + 1 ≤ unread src s)

/-- The loops deliver a result without more unread input than before. -/
def Ends (s : σ) (r : Option (AmfData N × σ)) : Prop :=
  ∃ d s', r = some (d, s') ∧ unread src s' ≤ unread src s

variable {src}

omit [NumberImage N] in
theorem Ends.of_le {s s₁ : σ} {r : Option (AmfData N × σ)} (h : Ends src s₁ r)
    (hle : unread src s₁ ≤ unread src s) : Ends src s r := by
  obtain ⟨d, s', hr, hs⟩ := h
  exact ⟨d, s', hr, by omega⟩

omit [NumberImage N] in
theorem Ends.delivers {s s₁ : σ} {r : Option (AmfData N × σ)} (h : Ends src s₁ r)
    (hle : unread src s₁ + 1 ≤ unread src s) : Delivers src s r := by
  obtain ⟨d, s', hr, hs⟩ := h
  exact ⟨d, s', hr, by omega, fun _ => by omega⟩

variable (src)

/-- The fuel that each function of the reader needs. -/
structure Enough (fuel : Nat) : Prop where
  data : ∀ s, unread src s < fuel →
    Delivers src s (amfDataRead src fuel s : Option (AmfData N × σ))
  object : ∀ (list : List (AmfData N)) s, unread src s < fuel →
    Ends src s (amfObjectRead src fuel list s)
  associativeArray : ∀ (list : List (AmfData N)) s, unread src s < fuel →
    Ends src s (amfAssociativeArrayRead src fuel list s)
  array : ∀ (n : Nat) (list : List (AmfData N)) s, unread src s + 1 < fuel →
    Ends src s (amfArrayRead src fuel n list s)

theorem amfDataRead_delivers {fuel : Nat} (ih : Enough (N := N) src fuel) (s : σ)
    (hs : unread src s < fuel + 1) :
    Delivers src s (amfDataRead src (fuel + 1) s : Option (AmfData N × σ)) := by
  have h := unread_read src 1 s
  rw [amfDataRead]
  cases hr : src.read 1 s with
  | mk bs s₁ =>
    rw [hr] at h
    cases bs with
    | nil =>
      refine ⟨_, _, rfl, by simpa using h, fun hok => ?_⟩
      cases hok
    | cons type bs =>
      have h₁ : unread src s₁ + 1 ≤ unread src s := by
        simp only [List.length_cons] at h
        omega
      have h4 := unread_read src 4 s₁
      have hleaf : ∀ d : AmfData N, Delivers src s (some (d, s₁)) := fun d =>
        ⟨d, s₁, rfl, by omega, fun _ => h₁⟩
      have hscalar : ∀ r : AmfData N × σ, unread src r.2 ≤ unread src s₁ →
          Delivers src s (some r) := fun r hle =>
        ⟨r.1, r.2, rfl, by omega, fun _ => by omega⟩
      dsimp only
      cases AmfType.ofCode type with
      | none => exact hleaf _
      | some t =>
        cases t with
        | number => exact hscalar _ (amfNumberRead_unread src s₁)
        | boolean => exact hscalar _ (amfBooleanRead_unread src s₁)
        | string => exact hscalar _ (amfStringRead_unread src s₁).1
        | object => exact (ih.object [] s₁ (by omega)).delivers h₁
        | null => exact hleaf _
        | undefined => exact hleaf _
        | associativeArray =>
          dsimp only
          split
          · exact hscalar (_, (src.read 4 s₁).2) (by dsimp only; omega)
          · exact (ih.associativeArray [] (src.read 4 s₁).2 (by omega)).delivers (by omega)
        | endTag => exact hleaf _
        | array =>
          dsimp only
          split
          · exact hscalar (_, (src.read 4 s₁).2) (by dsimp only; omega)
          · exact (ih.array _ [] (src.read 4 s₁).2 (by omega)).delivers (by omega)
        | date => exact hscalar _ (amfDateRead_unread src s₁)
        | xml => exact hleaf _
        | «class» => exact hleaf _

theorem amfObjectRead_ends {fuel : Nat} (ih : Enough (N := N) src fuel)
    (list : List (AmfData N)) (s : σ) (hs : unread src s < fuel + 1) :
    Ends src s (amfObjectRead src (fuel + 1) list s) := by
  obtain ⟨hname, hname'⟩ := amfStringRead_unread (N := N) src s
  rw [amfObjectRead]
  cases hr : (amfStringRead src s : AmfData N × σ) with
  | mk name s₁ =>
    rw [hr] at hname hname'
    dsimp only at hname hname' ⊢
    split
    · exact ⟨_, _, rfl, hname⟩
    · rename_i hok
      have h₁ := hname' (Classical.not_not.mp hok)
      obtain ⟨element, s₂, he, h₂, -⟩ := ih.data s₁ (by omega)
      rw [he]
      dsimp only
      split
      · exact ⟨_, _, rfl, by omega⟩
      · split
        · exact ⟨_, _, rfl, by omega⟩
        · split
          · exact ⟨_, _, rfl, by omega⟩
          · exact (ih.object _ s₂ (by omega)).of_le (by omega)

theorem amfAssociativeArrayRead_ends {fuel : Nat} (ih : Enough (N := N) src fuel)
    (list : List (AmfData N)) (s : σ) (hs : unread src s < fuel + 1) :
    Ends src s (amfAssociativeArrayRead src (fuel + 1) list s) := by
  obtain ⟨hname, hname'⟩ := amfStringRead_unread (N := N) src s
  rw [amfAssociativeArrayRead]
  cases hr : (amfStringRead src s : AmfData N × σ) with
  | mk name s₁ =>
    rw [hr] at hname hname'
    dsimp only at hname hname' ⊢
    split
    · exact ⟨_, _, rfl, hname⟩
    · rename_i hok
      have h₁ := hname' (Classical.not_not.mp hok)
      obtain ⟨element, s₂, he, h₂, -⟩ := ih.data s₁ (by omega)
      rw [he]
      dsimp only
      split
      · exact ⟨_, _, rfl, by omega⟩
      · split
        · exact ⟨_, _, rfl, by omega⟩
        · split
          · exact ⟨_, _, rfl, by omega⟩
          · exact (ih.associativeArray _ s₂ (by omega)).of_le (by omega)

theorem amfArrayRead_ends {fuel : Nat} (ih : Enough (N := N) src fuel) (n : Nat)
    (list : List (AmfData N)) (s : σ) (hs : unread src s + 1 < fuel + 1) :
    Ends src s (amfArrayRead src (fuel + 1) n list s) := by
  cases n with
  | zero => exact ⟨_, _, by rw [amfArrayRead], Nat.le_refl _⟩
  | succ n =>
    rw [amfArrayRead]
    obtain ⟨element, s₁, he, h₁, h₁'⟩ := ih.data s (by omega)
    rw [he]
    dsimp only
    split
    · exact ⟨_, _, rfl, h₁⟩
    · rename_i hok
      have h₂ := h₁' (Classical.not_not.mp hok)
      split
      · exact ⟨_, _, rfl, h₁⟩
      · exact (ih.array n _ s₁ (by omega)).of_le h₁

theorem enough (fuel : Nat) : Enough (N := N) src fuel := by
  induction fuel with
  | zero => exact ⟨fun _ h => by omega, fun _ _ h => by omega, fun _ _ h => by omega,
      fun _ _ _ h => by omega⟩
  | succ fuel ih =>
    exact ⟨amfDataRead_delivers src ih, amfObjectRead_ends src ih,
      amfAssociativeArrayRead_ends src ih, amfArrayRead_ends src ih⟩

/-- With more fuel than unread input the reader returns. -/
theorem amfDataRead_isSome {fuel : Nat} {s : σ} (h : unread src s < fuel) :
    (amfDataRead src fuel s : Option (AmfData N × σ)).isSome := by
  obtain ⟨d, s', hr, -⟩ := (enough (N := N) src fuel).data s h
  rw [hr]
  rfl

end

/-! ## Reading from a file and from a buffer -/

/-- `amf_data_file_read`, with enough fuel for what is left of the file. -/
def amfDataFileRead (stream : InFile) : AmfData N × InFile :=
  (amfDataRead fileSource (stream.rest.length + 1) stream).get
    (amfDataRead_isSome fileSource (Nat.lt_succ_self _))

/-- `amf_data_buffer_read`, with enough fuel for the buffer. -/
def amfDataBufferRead (buffer : Bytes) : AmfData N × BufferContext :=
  (amfDataRead bufferSource (buffer.length + 1) ⟨buffer, 0⟩).get
    (amfDataRead_isSome bufferSource (Nat.lt_succ_self _))

theorem amfDataRead_eq_fileRead (stream : InFile) :
    amfDataRead fileSource (stream.rest.length + 1) stream =
      some (amfDataFileRead stream : AmfData N × InFile) :=
  (Option.some_get _).symm

end FlvMeta
