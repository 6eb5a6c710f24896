import FlvMeta.Amf.Derivation
import FlvMeta.Amf.List
import FlvMeta.Amf.RoundTrip

/-!
# Well-formed trees

What can be said of the value that a reader returns, from any source. A value with the code `ok`
is `SoundTree`: every node below it has the code `ok` and one of the nine supported types, names and
values alternate, names are C strings, and the lists are chained. It has at most as many nodes as
bytes were read (`nodeCount`). Any other result is a null value with the error. The induction is
over the derivation of the run, with one lemma for each way a loop goes on.
-/

namespace FlvMeta

open Endian Stdio

variable {σ N : Type}

/-! ## SoundTree values -/

/-- The `amf_list` made by pushing these values is chained and holds them, as long as its size
does not wrap. -/
def Linked (list : List (AmfData N)) : Prop :=
  list.length < 2 ^ 32 →
    ∃ nodes, (AmfList.ofList list).Consistent nodes ∧ nodes.map Prod.snd = list

mutual

def SoundTree : AmfData N → Prop
  | .nullPtr => False
  | .number _ => True
  | .boolean _ => True
  | .string _ => True
  | .object list => Linked list ∧ SoundPairs list
  | .null errorCode => errorCode = .ok
  | .undefined => True
  | .associativeArray list => Linked list ∧ SoundPairs list
  | .array list => list.length < 2 ^ 32 ∧ Linked list ∧ SoundElements list
  | .date _ _ => True
  | .other _ => False

/-- Alternating names and sound values. -/
def SoundPairs : List (AmfData N) → Prop
  | [] => True
  | [_] => False
  | name :: value :: rest =>
    (∃ s, name = .string s ∧ NulFree s.bytes) ∧ SoundTree value ∧ SoundPairs rest

def SoundElements : List (AmfData N) → Prop
  | [] => True
  | element :: rest => SoundTree element ∧ SoundElements rest

end

mutual

/-- The number of values and names. -/
def nodeCount : AmfData N → Nat
  | .object list => 1 + nodeCountList list
  | .associativeArray list => 1 + nodeCountList list
  | .array list => 1 + nodeCountList list
  | _ => 1

def nodeCountList : List (AmfData N) → Nat
  | [] => 0
  | data :: rest => nodeCount data + nodeCountList rest

end

theorem linked (list : List (AmfData N)) : Linked list :=
  fun h => AmfList.exists_consistent_ofList h

theorem nodeCountList_append (xs ys : List (AmfData N)) :
    nodeCountList (xs ++ ys) = nodeCountList xs + nodeCountList ys := by
  induction xs with
  | nil => simp [nodeCountList]
  | cons x xs ih =>
    simp only [List.cons_append, nodeCountList, ih]
    omega

theorem SoundElements.concat {list : List (AmfData N)} (h : SoundElements list)
    {element : AmfData N} (he : SoundTree element) : SoundElements (list ++ [element]) := by
  induction list with
  | nil => exact ⟨he, trivial⟩
  | cons x list ih => exact ⟨h.1, ih h.2⟩

theorem SoundPairs.concat {name value : AmfData N}
    (hname : ∃ s, name = .string s ∧ NulFree s.bytes) (hvalue : SoundTree value) :
    ∀ {list : List (AmfData N)}, SoundPairs list → SoundPairs (list ++ [name, value])
  | [], _ => ⟨hname, hvalue, trivial⟩
  | [_], h => absurd h id
  | _ :: _ :: _, h => ⟨h.1, h.2.1, SoundPairs.concat hname hvalue h.2.2⟩

theorem SoundTree.errorCode {data : AmfData N} (h : SoundTree data) :
    amfDataGetErrorCode data = .ok := by
  cases data with
  | null e => exact (by simpa [SoundTree] using h : e = .ok)
  | nullPtr => simp [SoundTree] at h
  | _ => rfl

/-! ## Runs -/

namespace Frame

/-- What is already known when the reader is in a frame. -/
def Ready : Frame N → Prop
  | .value => True
  | .pairs _ list => SoundPairs list
  | .elements n list => list.length + n < 2 ^ 32 ∧ SoundElements list

/-- The nodes that were counted before the frame was reached. -/
def count : Frame N → Nat
  | .value => 0
  | .pairs _ list => 1 + nodeCountList list
  | .elements _ list => 1 + nodeCountList list

end Frame

section

variable [NumberImage N] (src : ByteSource σ)

/-- A run of the reader that returns `d`. -/
structure SoundRun (frame : Frame N) (s : σ) (d : AmfData N) (s' : σ) : Prop where
  unread_le : unread src s' ≤ unread src s
  sound : amfDataGetErrorCode d = .ok → frame.Ready → SoundTree d
  count_le : amfDataGetErrorCode d = .ok → nodeCount d + unread src s' ≤ frame.count + unread src s
  error : amfDataGetErrorCode d ≠ .ok → ∃ errorCode, d = .null errorCode

/-- What a scalar reader returns on `s`: one sound node or an error. -/
def OneNode (s : σ) (r : AmfData N × σ) : Prop :=
  unread src r.2 ≤ unread src s ∧
    ((SoundTree r.1 ∧ nodeCount r.1 = 1) ∨ ∃ e, e ≠ .ok ∧ r.1 = amfDataError e)

variable {src}

omit [NumberImage N] in
/-- The run ends in an error. -/
theorem SoundRun.ofError (frame : Frame N) {s s' : σ} (h : unread src s' ≤ unread src s)
    {e : AmfError} (he : e ≠ .ok) : SoundRun src frame s (amfDataError e : AmfData N) s' :=
  ⟨h, fun hok => absurd hok he, fun hok => absurd hok he, fun _ => ⟨e, rfl⟩⟩

omit [NumberImage N] in
/-- A value whose loop starts after the byte of its type. -/
theorem SoundRun.start {frame : Frame N} {s s₁ s' : σ} {d : AmfData N}
    (h : SoundRun src frame s₁ d s') (hbyte : unread src s₁ + 1 ≤ unread src s)
    (hready : frame.Ready) (hcount : frame.count = 1) : SoundRun src .value s d s' := by
  have hle := h.unread_le
  refine ⟨by omega, fun hok _ => h.sound hok hready, fun hok => ?_, h.error⟩
  have hbound := h.count_le hok
  simp only [Frame.count]
  omega

theorem read_byte {s s₁ : σ} {b : UInt8} {bs : Bytes} (h : src.read 1 s = (b :: bs, s₁)) :
    unread src s₁ + 1 ≤ unread src s := by
  have hle := unread_read src 1 s
  rw [h] at hle
  simp only [List.length_cons] at hle
  omega

theorem oneNode_amfNumberRead (s : σ) : OneNode src s (amfNumberRead src s : AmfData N × σ) := by
  refine ⟨amfNumberRead_unread src s, ?_⟩
  unfold amfNumberRead
  dsimp only
  split
  · exact Or.inl ⟨trivial, rfl⟩
  · exact Or.inr ⟨.eof, by decide, rfl⟩

omit [NumberImage N] in
theorem oneNode_amfBooleanRead (s : σ) :
    OneNode src s (amfBooleanRead src s : AmfData N × σ) := by
  refine ⟨amfBooleanRead_unread src s, ?_⟩
  unfold amfBooleanRead
  dsimp only
  split
  · exact Or.inl ⟨trivial, rfl⟩
  · exact Or.inr ⟨.eof, by decide, rfl⟩

omit [NumberImage N] in
theorem oneNode_amfStringRead (s : σ) : OneNode src s (amfStringRead src s : AmfData N × σ) := by
  refine ⟨(amfStringRead_unread src s).1, ?_⟩
  rcases amfStringRead_shape (N := N) src s with ⟨str, hstr⟩ | hstr
  · rw [hstr]
    exact Or.inl ⟨trivial, rfl⟩
  · exact Or.inr ⟨.eof, by decide, hstr⟩

theorem oneNode_amfDateRead (s : σ) : OneNode src s (amfDateRead src s : AmfData N × σ) := by
  refine ⟨amfDateRead_unread src s, ?_⟩
  unfold amfDateRead
  dsimp only
  split
  · split
    · exact Or.inl ⟨trivial, rfl⟩
    · exact Or.inr ⟨.eof, by decide, rfl⟩
  · exact Or.inr ⟨.eof, by decide, rfl⟩

theorem oneNode_amfScalarRead {t : AmfType} {s : σ} {r : AmfData N × σ}
    (h : amfScalarRead src t s = some r) : OneNode src s r := by
  cases t with
  | number => exact Option.some.inj h ▸ oneNode_amfNumberRead s
  | boolean => exact Option.some.inj h ▸ oneNode_amfBooleanRead s
  | string => exact Option.some.inj h ▸ oneNode_amfStringRead s
  | date => exact Option.some.inj h ▸ oneNode_amfDateRead s
  | null =>
    cases h
    exact ⟨Nat.le_refl _, Or.inl ⟨rfl, rfl⟩⟩
  | undefined =>
    cases h
    exact ⟨Nat.le_refl _, Or.inl ⟨trivial, rfl⟩⟩
  | endTag =>
    cases h
    exact ⟨Nat.le_refl _, Or.inr ⟨.endTag, by decide, rfl⟩⟩
  | xml =>
    cases h
    exact ⟨Nat.le_refl _, Or.inr ⟨.unsupportedType, by decide, rfl⟩⟩
  | «class» =>
    cases h
    exact ⟨Nat.le_refl _, Or.inr ⟨.unsupportedType, by decide, rfl⟩⟩
  | object => cases h
  | associativeArray => cases h
  | array => cases h

omit [NumberImage N] in
/-- A scalar after the byte of its type. -/
theorem OneNode.soundRun {s s₁ s' : σ} {d : AmfData N} (h : OneNode src s₁ (d, s'))
    (hbyte : unread src s₁ + 1 ≤ unread src s) : SoundRun src .value s d s' := by
  obtain ⟨hle, ⟨hsound, hcount⟩ | ⟨e, he, hd⟩⟩ := h
  · dsimp only at hle hsound hcount
    refine ⟨by omega, fun _ _ => hsound, fun _ => ?_, fun hok => absurd hsound.errorCode hok⟩
    simp only [Frame.count]
    omega
  · dsimp only at hle hd
    rw [hd]
    exact .ofError _ (by omega) he

omit [NumberImage N] in
/-- The loop over names and values ends with what it has. -/
theorem soundRun_close {kind : PairsKind} {list : List (AmfData N)} {s s' : σ}
    (h : unread src s' ≤ unread src s) :
    SoundRun src (.pairs kind list) s (kind.build list) s' := by
  have hok : amfDataGetErrorCode (kind.build list) = .ok := by cases kind <;> rfl
  refine ⟨h, fun _ hready => ?_, fun _ => ?_, fun he => absurd hok he⟩
  · cases kind <;> exact ⟨linked list, hready⟩
  · cases kind <;>
      (simp only [PairsKind.build, nodeCount, Frame.count]
       omega)

omit [NumberImage N] in
/-- The loop goes on after a name and a value. -/
theorem soundRun_entry {kind : PairsKind} {list : List (AmfData N)} {s s₁ s₂ s' : σ}
    {name element d : AmfData N} (hname : unread src s₁ + 2 ≤ unread src s)
    (h : SoundRun src .value s₁ element s₂) (hcode : amfDataGetErrorCode element = .ok)
    (hrest : SoundRun src (.pairs kind
      (list ++ [amfStr (cString (amfStringGetBytes name)), element])) s₂ d s') :
    SoundRun src (.pairs kind list) s d s' := by
  have hle := h.unread_le
  have hle' := hrest.unread_le
  refine ⟨by omega, fun hok hready => hrest.sound hok ?_, fun hok => ?_, hrest.error⟩
  · have hnul := nulFree_cString (amfStringGetBytes name)
    refine SoundPairs.concat ⟨_, rfl, ?_⟩ (h.sound hcode trivial) hready
    exact fun b hb => hnul b (List.mem_of_mem_take hb)
  · have hbound := hrest.count_le hok
    have helement := h.count_le hcode
    have hvalue : nodeCount (amfStr (cString (amfStringGetBytes name)) : AmfData N) = 1 := rfl
    simp only [Frame.count, nodeCountList_append, nodeCountList, hvalue] at hbound helement ⊢
    omega

omit [NumberImage N] in
/-- The loop goes on after an element. -/
theorem soundRun_element {n : Nat} {list : List (AmfData N)} {s s₁ s' : σ}
    {element d : AmfData N} (h : SoundRun src .value s element s₁)
    (hcode : amfDataGetErrorCode element = .ok)
    (hrest : SoundRun src (.elements n (list ++ [element])) s₁ d s') :
    SoundRun src (.elements (n + 1) list) s d s' := by
  have hle := h.unread_le
  have hle' := hrest.unread_le
  refine ⟨by omega, fun hok hready => hrest.sound hok ⟨?_, ?_⟩, fun hok => ?_, hrest.error⟩
  · have hlt := hready.1
    rw [List.length_append, List.length_singleton]
    omega
  · exact hready.2.concat (h.sound hcode trivial)
  · have hbound := hrest.count_le hok
    have helement := h.count_le hcode
    simp only [Frame.count, nodeCountList_append, nodeCountList] at hbound helement ⊢
    omega

/-- The induction over a run, with one case for each way a loop goes on or ends. -/
theorem soundRun {frame : Frame N} {s s' : σ} {d : AmfData N} (h : Reads src frame s d s') :
    SoundRun src frame s d s' := by
  induction h with
  | @eof s s' h =>
    have hle := unread_read src 1 s
    rw [h] at hle
    exact .ofError _ (by simpa using hle) (by decide)
  | unknown h ht =>
    have hbyte := read_byte h
    exact .ofError _ (by omega) (by decide)
  | scalar h ht hs => exact (oneNode_amfScalarRead hs).soundRun (read_byte h)
  | @noSize s s₁ b bs h hsize =>
    have hbyte := read_byte h
    have hle := unread_read src 4 s₁
    exact .ofError _ (by omega) (by decide)
  | object h hrun ih => exact ih.start (read_byte h) trivial rfl
  | @associativeArray s s₁ s' b bs d h hsize hrun ih =>
    have hbyte := read_byte h
    have hle := unread_read src 4 s₁
    exact ih.start (by omega) trivial rfl
  | @array s s₁ s' b bs d n h hsize hn hrun ih =>
    have hbyte := read_byte h
    have hle := unread_read src 4 s₁
    exact ih.start (by omega) ⟨by simpa using hn, trivial⟩ rfl
  | @noName kind list s hname => exact .ofError _ (amfStringRead_unread src s).1 hname
  | @close kind list s name s₁ element s' hname hok hrun hstop ih =>
    have hle := (amfStringRead_unread (N := N) src s).1
    rw [hname] at hle
    exact soundRun_close (Nat.le_trans ih.unread_le hle)
  | @badValue kind list s name s₁ element s' hname hok hrun hcode ih =>
    have hle := (amfStringRead_unread (N := N) src s).1
    rw [hname] at hle
    exact .ofError _ (Nat.le_trans ih.unread_le hle) hcode
  | @entry kind list s name s₁ element s₂ d s' hname hok hrun hstop hcode hrest ih ih' =>
    have hle := (amfStringRead_unread (N := N) src s).2
    rw [hname] at hle
    exact soundRun_entry (hle hok) ih hcode ih'
  | @done list s =>
    refine ⟨Nat.le_refl _, fun _ hready => ?_, fun _ => Nat.le_refl _, fun he => absurd rfl he⟩
    exact ⟨by simpa using hready.1, linked list, hready.2⟩
  | badElement hrun hcode ih => exact .ofError _ ih.unread_le hcode
  | element hrun hcode hrest ih ih' => exact soundRun_element ih hcode ih'

theorem soundTree_amfDataFileRead (stream : InFile)
    (h : amfDataGetErrorCode (amfDataFileRead stream : AmfData N × InFile).1 = .ok) :
    SoundTree (amfDataFileRead stream : AmfData N × InFile).1 :=
  (soundRun (reads_of_amfDataRead fileSource (amfDataRead_eq_fileRead stream))).sound h trivial

/-- On every source the reader returns, whatever it is given, and what it returns is a well-formed
tree of no more values and names than the bytes it read, or a null value with an error. -/
theorem amfDataRead_sound {fuel : Nat} {s : σ} (h : unread src s < fuel) :
    ∃ (data : AmfData N) (s' : σ), amfDataRead src fuel s = some (data, s') ∧
      (amfDataGetErrorCode data = .ok →
        SoundTree data ∧ nodeCount data + unread src s' ≤ unread src s) ∧
      (amfDataGetErrorCode data ≠ .ok → ∃ errorCode, data = .null errorCode) := by
  obtain ⟨data, s', hread, -⟩ := (enough (N := N) src fuel).data s h
  have hrun := soundRun (reads_of_amfDataRead src hread)
  refine ⟨data, s', hread, fun hok => ⟨hrun.sound hok trivial, ?_⟩, hrun.error⟩
  have hcount := hrun.count_le hok
  simpa [Frame.count] using hcount

end

/-- An object of one entry. -/
theorem amfDataRead_sound_object :
    ∃ (data : AmfData UInt64) (s' : BufferContext),
      amfDataRead bufferSource 9 ⟨[3, 0, 1, 97, 6, 0, 0, 9], 0⟩ = some (data, s') ∧
      (amfDataGetErrorCode data = .ok →
        SoundTree data ∧
          nodeCount data + unread bufferSource s' ≤
            unread bufferSource ⟨[3, 0, 1, 97, 6, 0, 0, 9], 0⟩) ∧
      (amfDataGetErrorCode data ≠ .ok → ∃ errorCode, data = .null errorCode) :=
  amfDataRead_sound (by decide)

/-! ## The size of a list -/

/-- `n` entries of the same name, as a flat list. -/
def undefinedEntries (n : Nat) : List (AmfData UInt64) :=
  (List.replicate n [amfStr (ascii "a"), .undefined]).flatten

theorem length_undefinedEntries (n : Nat) : (undefinedEntries n).length = 2 * n := by
  simp [undefinedEntries, List.length_flatten, Nat.mul_comm]

theorem wellFormedPairs_undefinedEntries (n : Nat) :
    WellFormedPairs NulFree (undefinedEntries n) := by
  induction n with
  | zero => exact trivial
  | succ n ih => exact ⟨⟨_, rfl, by decide +kernel⟩, trivial, ih⟩

/-- The size of a list is a `uint32`: an object of `2^31` entries has `2^32` nodes and the size
zero. -/
theorem amfDataRead_size_wraps :
    ¬ ∀ (buffer : Bytes) (list : List (AmfData UInt64)),
      (amfDataBufferRead buffer).1 = AmfData.object list →
        (AmfList.ofList list).size = list.length := by
  intro h
  have hwf : WellFormed (AmfData.object (undefinedEntries (2 ^ 31)) : AmfData UInt64) :=
    wellFormedPairs_undefinedEntries _
  have hread := amfDataBufferRead_image (N := UInt64) hwf []
  rw [mapNumbers_reload] at hread
  have hsize := h _ _ (congrArg Prod.fst hread)
  rw [AmfList.size_ofList, length_undefinedEntries] at hsize
  exact absurd hsize (by decide)

/-! ## Supported values -/

mutual

/-- A tree of supported types without NULL children, whose objects alternate names and values. -/
def Supported : AmfData N → Prop
  | .nullPtr => False
  | .object list => SupportedEntries list
  | .associativeArray list => SupportedEntries list
  | .array list => SupportedElements list
  | .other _ => False
  | _ => True

def SupportedEntries : List (AmfData N) → Prop
  | [] => True
  | [_] => False
  | name :: value :: rest => (∃ s, name = .string s) ∧ Supported value ∧ SupportedEntries rest

def SupportedElements : List (AmfData N) → Prop
  | [] => True
  | element :: rest => Supported element ∧ SupportedElements rest

end

theorem Supported.isNull {data : AmfData N} (h : Supported data) : data.isNull = false := by
  cases data with
  | nullPtr => exact h.elim
  | _ => rfl

mutual

/-- Every tree that is read from a file is supported. -/
theorem SoundTree.supported (data : AmfData N) (h : SoundTree data) : Supported data := by
  cases data with
  | nullPtr => exact h
  | object list => exact SoundPairs.supported list h.2
  | associativeArray list => exact SoundPairs.supported list h.2
  | array list => exact SoundElements.supported list h.2.2
  | other type => exact h
  | _ => trivial

theorem SoundPairs.supported (list : List (AmfData N)) (h : SoundPairs list) :
    SupportedEntries list :=
  match list, h with
  | [], _ => trivial
  | [_], h => h
  | _ :: value :: rest, ⟨⟨s, hname, _⟩, hvalue, hrest⟩ =>
    ⟨⟨s, hname⟩, SoundTree.supported value hvalue, SoundPairs.supported rest hrest⟩

theorem SoundElements.supported (list : List (AmfData N)) (h : SoundElements list) :
    SupportedElements list :=
  match list, h with
  | [], _ => trivial
  | element :: rest, ⟨helement, hrest⟩ =>
    ⟨SoundTree.supported element helement, SoundElements.supported rest hrest⟩

end

end FlvMeta
