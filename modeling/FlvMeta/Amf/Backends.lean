import FlvMeta.Amf.Simulation

/-!
# The two sources of the reader

`buffer_read` is meant to mimic `fread`, but where the input ends within an item `fread` delivers
what is left and `buffer_read` consumes nothing. This is not seen as long as the end of file ends
the run. The empty name that closes an associative array swallows it, though, and if an
enclosing container reads on then, it finds the end of the file in the one case and the bytes
left behind in the other (`amfDataBufferRead_eq_amfDataFileRead`).
-/

namespace FlvMeta

open Endian Stdio ByteSource

variable {N : Type} [NumberImage N]

/-! ## Short reads -/

theorem bufferSource_read_of_lt {n : Nat} {ctxt : BufferContext} (h : ctxt.rest.length < n) :
    bufferSource.read n ctxt = ([], ctxt) := by
  have hlt : ¬ ctxt.current + n ≤ ctxt.buffer.length := by
    rw [BufferContext.rest, List.length_drop] at h
    omega
  exact if_neg hlt

/-- What is left for the file when `ctxt` is what is left for the buffer. -/
structure Beside (ctxt : Watched BufferContext) (stream : InFile) : Prop where
  same : ctxt.cut = false → stream.rest = ctxt.state.rest
  ended : ctxt.cut = true → stream.rest = []

theorem Beside.read_of_le {ctxt : Watched BufferContext} {stream : InFile}
    (h : Beside ctxt stream) (hcut : ctxt.cut = false) {n : Nat} (hn : n ≤ ctxt.state.rest.length) :
    (fileSource.read n stream).1 = (bufferSource.watch.read n ctxt).1 ∧
      Beside (bufferSource.watch.read n ctxt).2 (fileSource.read n stream).2 := by
  have hsame := h.same hcut
  have hn' : n ≤ stream.rest.length := by rwa [hsame]
  have hfile : fileSource.read n stream = (stream.rest.take n, stream.advance n) :=
    fileSource.read_of_le hn'
  have hbuffer : bufferSource.watch.read n ctxt =
      (ctxt.state.rest.take n, bufferSource.watch.advance n ctxt) :=
    bufferSource.watch.read_of_le hn
  rw [hfile, hbuffer, hsame]
  refine ⟨rfl, fun _ => ?_, fun hcut' => ?_⟩
  · rw [InFile.rest_advance, hsame]
    exact (bufferSource.rest_advance n ctxt.state).symm
  · exact absurd (hcut.symm.trans hcut') (by decide)

theorem Beside.read_of_lt {ctxt : Watched BufferContext} {stream : InFile}
    (h : Beside ctxt stream) (hcut : ctxt.cut = false) {n : Nat} (hn : ctxt.state.rest.length < n) :
    Beside (bufferSource.watch.read n ctxt).2 (fileSource.read n stream).2 := by
  have hrest := rest_fileSource_read_of_lt (h.same hcut ▸ hn)
  rw [ByteSource.read_watch, bufferSource_read_of_lt hn]
  refine ⟨fun hcut' => ?_, fun _ => hrest⟩
  have hempty : ctxt.state.rest = [] := by
    cases hr : ctxt.state.rest with
    | nil => rfl
    | cons b bs =>
      have hb : bufferSource.rest ctxt.state = b :: bs := hr
      rw [hcut, hb, List.length_nil, decide_eq_true (by omega)] at hcut'
      cases hcut'
  rw [hrest]
  exact hempty.symm

/-- As long as nothing is read after an item was cut short, the two sources deliver the same. -/
def fileBesideBuffer : Simulation bufferSource.watch fileSource where
  Rel := Beside
  Dry _ := False
  Bad ctxt := ctxt.resumed = true
  full {n ctxt stream} hn hrel hbad hlen := by
    have hcut := bufferSource.cut_eq_false hn hbad
    refine hrel.read_of_le hcut (Nat.le_of_not_lt fun hlt => ?_)
    exact absurd (bufferSource.watch.read_of_lt hlt) (by omega)
  short {n ctxt stream} hn hrel hbad hlen := by
    have hcut := bufferSource.cut_eq_false hn hbad
    have hlt : ctxt.state.rest.length < n := by
      refine Nat.lt_of_not_le fun hle => ?_
      have hfull : bufferSource.watch.read n ctxt = (ctxt.state.rest.take n, _) :=
        bufferSource.watch.read_of_le hle
      rw [hfull, List.length_take, Nat.min_eq_left hle] at hlen
      exact Nat.lt_irrefl n hlen
    have hlt' : stream.rest.length < n := by rwa [hrel.same hcut]
    exact .inl ⟨fileSource.read_of_lt hlt', hrel.read_of_lt hcut hlt⟩
  dry hdry := hdry.elim
  bad n ctxt hbad := by
    rw [ByteSource.read_watch]
    dsimp only
    rw [hbad]
    rfl

/-! ## The results -/

/-- `amf_data_buffer_read` with its short reads watched. -/
def amfDataWatchedRead (b : Bytes) : AmfData N × Watched BufferContext :=
  (amfDataRead bufferSource.watch (b.length + 1) ⟨⟨b, 0⟩, false, false⟩).get
    (amfDataRead_isSome bufferSource.watch (Nat.lt_succ_self _))

/-- Something is read after the end of the input has cut an item short. -/
def ReadsOn (N : Type) [NumberImage N] (b : Bytes) : Prop :=
  (amfDataWatchedRead b : AmfData N × Watched BufferContext).2.resumed = true

instance (b : Bytes) : Decidable (ReadsOn N b) := inferInstanceAs (Decidable (_ = true))

theorem amfDataWatchedRead_eq (b : Bytes) :
    amfDataRead bufferSource.watch (b.length + 1) ⟨⟨b, 0⟩, false, false⟩ =
      some (amfDataWatchedRead b : AmfData N × Watched BufferContext) :=
  (Option.some_get _).symm

theorem amfDataRead_eq_bufferRead (b : Bytes) :
    amfDataRead bufferSource (b.length + 1) ⟨b, 0⟩ =
      some (amfDataBufferRead b : AmfData N × BufferContext) :=
  (Option.some_get _).symm

theorem amfDataBufferRead_eq_watched (b : Bytes) :
    (amfDataBufferRead b : AmfData N × BufferContext).1 = (amfDataWatchedRead b).1 := by
  have hagrees := agrees_amfDataRead bufferSource.unwatch rfl (amfDataWatchedRead_eq (N := N) b)
    (amfDataRead_eq_bufferRead b)
  rcases hagrees (fun hbad => hbad) with ⟨hsame, -⟩ | ⟨-, hdry⟩
  · exact hsame
  · exact hdry.elim

theorem amfDataBufferRead_eq_amfDataFileRead (b : Bytes) (hb : ¬ ReadsOn N b) :
    (amfDataBufferRead b : AmfData N × BufferContext).1 =
      (amfDataFileRead (InFile.ofContent b)).1 := by
  have hagrees := agrees_amfDataRead fileBesideBuffer
    (⟨fun _ => rfl, fun hcut => by cases hcut⟩ : Beside ⟨⟨b, 0⟩, false, false⟩ (InFile.ofContent b))
    (amfDataWatchedRead_eq (N := N) b) (amfDataRead_eq_fileRead (InFile.ofContent b))
  rw [amfDataBufferRead_eq_watched]
  rcases hagrees hb with ⟨hsame, -⟩ | ⟨-, hdry⟩
  · exact hsame.symm
  · exact hdry.elim

/-- The file and the buffer give the same if the file does not give an end of file. -/
theorem amfDataBufferRead_eq_of_not_eof {b : Bytes}
    (h : amfDataGetErrorCode (amfDataFileRead (InFile.ofContent b) : AmfData N × InFile).1 ≠ .eof) :
    (amfDataBufferRead b : AmfData N × BufferContext).1 =
      (amfDataFileRead (InFile.ofContent b)).1 := by
  have hagrees := agrees_amfDataRead (beyondFile bufferSource) (.inr ⟨[], (List.append_nil _).symm⟩)
    (amfDataRead_eq_fileRead (N := N) (InFile.ofContent b)) (amfDataRead_eq_bufferRead b)
  rcases hagrees (fun hbad => hbad) with ⟨hsame, -⟩ | ⟨heof, -⟩
  · exact hsame
  · exact absurd heof h

/-- An array of two elements: an associative array closed by its empty name, in front of a number of
which one byte is left; and what this byte is the type of. -/
def swallowedEof : Bytes := [10, 0, 0, 0, 2, 8, 0, 0, 0, 0, 0, 0, 0, 5]

/-- An object of a string and an array, whose number ends after two of its eight bytes. -/
def cutNumber : Bytes := [3, 0, 1, 97, 2, 0, 1, 98, 0, 1, 99, 10, 0, 0, 0, 1, 0, 63, 240]

theorem amfDataBufferRead_eq_amfDataFileRead_cut :
    (amfDataBufferRead cutNumber : AmfData UInt64 × BufferContext).1 =
        (amfDataFileRead (InFile.ofContent cutNumber)).1 ∧
      amfDataGetErrorCode
        (amfDataFileRead (InFile.ofContent cutNumber) : AmfData UInt64 × InFile).1 = .eof :=
  ⟨amfDataBufferRead_eq_amfDataFileRead cutNumber (by decide +kernel), by decide +kernel⟩

theorem not_amfDataBufferRead_eq_amfDataFileRead :
    ¬ ∀ b : Bytes, (amfDataBufferRead b : AmfData UInt64 × BufferContext).1 =
      (amfDataFileRead (InFile.ofContent b)).1 := by
  intro h
  have hcode := congrArg amfDataGetErrorCode (h swallowedEof)
  revert hcode
  decide

end FlvMeta
