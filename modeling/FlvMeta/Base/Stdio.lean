import Mathlib.Algebra.Order.Ring.Nat
import Mathlib.Data.List.Basic

/-!
# Standard I/O streams

A stream opened for reading (`InFile`) is its content, a position and the end-of-file flag.
`fread` delivers what is left, up to the number of bytes asked for, and sets the flag exactly
when it could not deliver all of them; seeking clears the flag and may go past the end.

A stream opened for writing (`OutFile`) is what has been written so far and, for a device
that fills up, the number of bytes it accepts. Two kinds of write occur. A `CountedWrite`
reports how many bytes it wrote; `Counts` says that it writes given bytes or leaves the device
full. A `WriteStep` is checked by its caller: it reports success or failure, and `Emits` says
which bytes a success has written. Sequences of checked writes emit the concatenation of what
their members emit (`emits_andThen`), also when a member only checks that enough bytes were
counted (`emits_atLeast_andThen`).
-/

namespace Stdio

/-! ## Reading -/

structure InFile where
  content : List UInt8
  pos : Nat
  eof : Bool
deriving DecidableEq, Repr

namespace InFile

/-- A stream freshly opened on `content`. -/
def ofContent (content : List UInt8) : InFile := ⟨content, 0, false⟩

/-- The bytes not read yet. -/
def rest (f : InFile) : List UInt8 := f.content.drop f.pos

def advance (n : Nat) (f : InFile) : InFile := { f with pos := f.pos + n }

/-- `fread(buffer, 1, n, f)`: the bytes delivered. -/
def fread (n : Nat) (f : InFile) : List UInt8 × InFile :=
  let got := f.rest.take n
  (got, { f with pos := f.pos + got.length, eof := f.eof || decide (got.length < n) })

/-- `fread(item, n, 1, f)`: the item, when all of its `n` bytes were delivered. -/
def freadItem (n : Nat) (f : InFile) : Option (List UInt8) × InFile :=
  match f.fread n with
  | (got, f) => (if got.length = n then some got else none, f)

/-- Items of given sizes, one `fread` after the other, up to the first that fails. -/
def freadItems : List Nat → InFile → Option (List (List UInt8)) × InFile
  | [], f => (some [], f)
  | n :: ns, f =>
    match f.freadItem n with
    | (none, f) => (none, f)
    | (some item, f) =>
      match freadItems ns f with
      | (none, f) => (none, f)
      | (some items, f) => (some (item :: items), f)

/-- `fseek(f, p, SEEK_SET)`. -/
def seekSet (p : Nat) (f : InFile) : InFile := { f with pos := p, eof := false }

/-- `fseek(f, d, SEEK_CUR)`; seeking before the start fails and changes nothing. -/
def seekCur (d : Int) (f : InFile) : InFile :=
  if (f.pos : Int) + d < 0 then f
  else { f with pos := ((f.pos : Int) + d).toNat, eof := false }

@[simp] theorem advance_content (n : Nat) (f : InFile) : (f.advance n).content = f.content := rfl

@[simp] theorem advance_pos (n : Nat) (f : InFile) : (f.advance n).pos = f.pos + n := rfl

@[simp] theorem advance_eof (n : Nat) (f : InFile) : (f.advance n).eof = f.eof := rfl

theorem advance_advance (m n : Nat) (f : InFile) :
    (f.advance m).advance n = f.advance (m + n) := by
  simp [advance, Nat.add_assoc]

@[simp] theorem advance_zero (f : InFile) : f.advance 0 = f := rfl

theorem rest_advance (n : Nat) (f : InFile) : (f.advance n).rest = f.rest.drop n := by
  simp [rest, advance, List.drop_drop]

theorem length_rest (f : InFile) : f.rest.length = f.content.length - f.pos := by
  simp [rest]

@[simp] theorem fread_content (n : Nat) (f : InFile) : (f.fread n).2.content = f.content := rfl

@[simp] theorem freadItem_content (n : Nat) (f : InFile) :
    (f.freadItem n).2.content = f.content := rfl

@[simp] theorem seekSet_content (p : Nat) (f : InFile) : (f.seekSet p).content = f.content := rfl

@[simp] theorem seekSet_pos (p : Nat) (f : InFile) : (f.seekSet p).pos = p := rfl

@[simp] theorem seekSet_eof (p : Nat) (f : InFile) : (f.seekSet p).eof = false := rfl

@[simp] theorem seekCur_content (d : Int) (f : InFile) : (f.seekCur d).content = f.content := by
  unfold seekCur
  split <;> rfl

theorem seekCur_forward (n : Nat) (f : InFile) :
    f.seekCur n = { f with pos := f.pos + n, eof := false } := by
  unfold seekCur
  rw [if_neg (by omega)]
  congr 1

theorem seekCur_back {n : Nat} {f : InFile} (h : n ≤ f.pos) :
    f.seekCur (-(n : Int)) = { f with pos := f.pos - n, eof := false } := by
  unfold seekCur
  rw [if_neg (by omega)]
  congr 1
  omega

/-- A read that the rest of the file can serve in full. -/
theorem fread_of_le {n : Nat} {f : InFile} (h : n ≤ f.rest.length) :
    f.fread n = (f.rest.take n, f.advance n) := by
  have hlen : (f.rest.take n).length = n := by rw [List.length_take, Nat.min_eq_left h]
  simp [fread, hlen, advance]

/-- A read that runs into the end of the file. -/
theorem fread_of_lt {n : Nat} {f : InFile} (h : f.rest.length < n) :
    f.fread n = (f.rest, { f with pos := f.pos + f.rest.length, eof := true }) := by
  have htake : f.rest.take n = f.rest := List.take_of_length_le (by omega)
  simp [fread, htake, h]

theorem freadItem_of_le {n : Nat} {f : InFile} (h : n ≤ f.rest.length) :
    f.freadItem n = (some (f.rest.take n), f.advance n) := by
  simp [freadItem, fread_of_le h, h]

theorem freadItem_of_lt {n : Nat} {f : InFile} (h : f.rest.length < n) :
    f.freadItem n = (none, { f with pos := f.pos + f.rest.length, eof := true }) := by
  simp [freadItem, fread_of_lt h, Nat.ne_of_lt h]

/-- The bytes of a buffer cut into items of given sizes. -/
def splitItems : List Nat → List UInt8 → List (List UInt8)
  | [], _ => []
  | n :: ns, bs => bs.take n :: splitItems ns (bs.drop n)

theorem freadItems_of_le {ns : List Nat} {f : InFile} (h : ns.sum ≤ f.rest.length) :
    f.freadItems ns = (some (splitItems ns f.rest), f.advance ns.sum) := by
  induction ns generalizing f with
  | nil => rfl
  | cons n ns ih =>
    rw [List.sum_cons] at h
    have hrest : (f.advance n).rest = f.rest.drop n := rest_advance n f
    have hns : ns.sum ≤ (f.advance n).rest.length := by
      rw [hrest, List.length_drop]
      omega
    rw [freadItems, freadItem_of_le (by omega)]
    simp only [ih hns, hrest, splitItems, advance_advance, List.sum_cons]

/-- Items that the file cannot serve in full are read up to the end of the file. -/
theorem freadItems_of_lt {ns : List Nat} {f : InFile} (h : f.rest.length < ns.sum) :
    f.freadItems ns = (none, { f with pos := f.pos + f.rest.length, eof := true }) := by
  induction ns generalizing f with
  | nil => simp at h
  | cons n ns ih =>
    rw [List.sum_cons] at h
    rw [freadItems]
    by_cases hn : f.rest.length < n
    · rw [freadItem_of_lt hn]
    · have hlen : (f.advance n).rest.length = f.rest.length - n := by
        rw [rest_advance, List.length_drop]
      have hpos : f.pos + n + (f.rest.length - n) = f.pos + f.rest.length := by omega
      rw [freadItem_of_le (by omega)]
      simp only [ih (f := f.advance n) (by omega), hlen, advance_pos, hpos, advance_content]

theorem fread_cases (n : Nat) (f : InFile) :
    n ≤ f.rest.length ∧ f.fread n = (f.rest.take n, f.advance n) ∨
      f.rest.length < n ∧
        f.fread n = (f.rest, { f with pos := f.pos + f.rest.length, eof := true }) := by
  by_cases h : n ≤ f.rest.length
  · exact Or.inl ⟨h, fread_of_le h⟩
  · exact Or.inr ⟨by omega, fread_of_lt (by omega)⟩

@[simp] theorem fread_pos (n : Nat) (f : InFile) :
    (f.fread n).2.pos = f.pos + (f.fread n).1.length := rfl

theorem length_fread_lt {n : Nat} {f : InFile} (h : f.rest.length < n) :
    (f.fread n).1.length < n := by
  rw [fread_of_lt h]
  exact h

/-- A read takes what it delivers off the unread input. -/
theorem rest_fread_le (n : Nat) (f : InFile) :
    (f.fread n).2.rest.length + (f.fread n).1.length ≤ f.rest.length := by
  simp only [fread, rest, List.length_drop, List.length_take]
  omega

theorem length_fread_le (n : Nat) (f : InFile) : (f.fread n).1.length ≤ n := by
  rw [fread, List.length_take]
  omega

/-- A read sets the flag only when it reaches past the end. -/
theorem eof_fread {n : Nat} {f : InFile} (hf : f.eof = false) (h : (f.fread n).2.eof = true) :
    f.content.length < f.pos + n := by
  rcases fread_cases n f with ⟨-, h'⟩ | ⟨hlt, -⟩
  · rw [h', advance_eof, hf] at h
    cases h
  · rw [length_rest] at hlt
    omega

/-- The end-of-file flag is only set at the end of the file. -/
def Sane (f : InFile) : Prop := f.eof = true → f.content.length ≤ f.pos

/-- `f'` is reached from `f` by reading: the position only grows and the flag is only set. -/
structure Consumed (f f' : InFile) : Prop where
  content : f'.content = f.content
  pos : f.pos ≤ f'.pos
  bound : f'.pos ≤ max f.pos f.content.length
  flag : f.eof = true → f'.eof = true
  atEnd : f'.eof = true → f.eof = true ∨ f'.content.length ≤ f'.pos

theorem Consumed.refl (f : InFile) : Consumed f f :=
  ⟨rfl, Nat.le_refl _, Nat.le_max_left _ _, id, Or.inl⟩

theorem Consumed.trans {f g h : InFile} (hfg : Consumed f g) (hgh : Consumed g h) :
    Consumed f h := by
  have hbound : h.pos ≤ max f.pos f.content.length := by
    have h₁ := hfg.bound
    have h₂ := hgh.bound
    rw [hfg.content] at h₂
    omega
  refine ⟨hgh.content.trans hfg.content, Nat.le_trans hfg.pos hgh.pos, hbound,
    fun hf => hgh.flag (hfg.flag hf), fun hh => ?_⟩
  rcases hgh.atEnd hh with hg | hend
  · rcases hfg.atEnd hg with hf | hend
    · exact Or.inl hf
    · right
      have hpos := hgh.pos
      rw [hgh.content]
      omega
  · exact Or.inr hend

theorem Consumed.sane {f f' : InFile} (h : Consumed f f') (hf : f.Sane) : f'.Sane := by
  intro heof
  rcases h.atEnd heof with h₁ | h₁
  · have hpos := h.pos
    have hlen := hf h₁
    rw [h.content]
    omega
  · exact h₁

theorem consumed_fread (n : Nat) (f : InFile) : Consumed f (f.fread n).2 := by
  rcases fread_cases n f with ⟨hle, h⟩ | ⟨hlt, h⟩
  · rw [h]
    rw [length_rest] at hle
    refine ⟨rfl, Nat.le_add_right _ _, ?_, id, Or.inl⟩
    rw [advance_pos]
    omega
  · rw [h, length_rest]
    refine ⟨rfl, Nat.le_add_right _ _, ?_, fun _ => rfl, fun _ => Or.inr ?_⟩
    · dsimp only
      omega
    · dsimp only
      omega

/-- A file from which something was read was not at its end. -/
theorem Consumed.eof_of_lt {f f' : InFile} (h : Consumed f f') (hf : f.Sane)
    (hlt : f.pos < f'.pos) : f.eof = false := by
  cases he : f.eof with
  | false => rfl
  | true =>
    have hend := hf he
    have hbound := h.bound
    omega

end InFile

/-! ## Writing -/

/-- `limit` is the number of bytes the device accepts in all; `none` for a device on which no
write fails. -/
structure OutFile where
  written : List UInt8
  limit : Option Nat
deriving DecidableEq, Repr

namespace OutFile

/-- A stream freshly opened for writing, on which no write fails. -/
def empty : OutFile := ⟨[], none⟩

def append (bs : List UInt8) (out : OutFile) : OutFile := { out with written := out.written ++ bs }

/-- How many of `n` more bytes the device accepts. -/
def room (n : Nat) (out : OutFile) : Nat :=
  match out.limit with
  | none => n
  | some l => min n (l - out.written.length)

/-- `fwrite(bs, 1, length, out)`: the number of bytes written. -/
def fwrite (bs : List UInt8) (out : OutFile) : Nat × OutFile :=
  (out.room bs.length, out.append (bs.take (out.room bs.length)))

@[simp] theorem append_written (bs : List UInt8) (out : OutFile) :
    (out.append bs).written = out.written ++ bs := rfl

@[simp] theorem append_limit (bs : List UInt8) (out : OutFile) :
    (out.append bs).limit = out.limit := rfl

@[simp] theorem append_nil (out : OutFile) : out.append [] = out := by
  simp [append]

theorem append_append (xs ys : List UInt8) (out : OutFile) :
    (out.append xs).append ys = out.append (xs ++ ys) := by
  simp [append]

/-- The device accepts no more bytes. -/
def Full (out : OutFile) : Prop := ∃ l, out.limit = some l ∧ l ≤ out.written.length

theorem Full.append {out : OutFile} (h : out.Full) (bs : List UInt8) : (out.append bs).Full := by
  obtain ⟨l, hl, hle⟩ := h
  refine ⟨l, hl, ?_⟩
  rw [append_written, List.length_append]
  omega

theorem room_of_full {out : OutFile} (h : out.Full) (n : Nat) : out.room n = 0 := by
  obtain ⟨l, hl, hle⟩ := h
  simp only [room, hl]
  omega

theorem fwrite_of_unlimited {out : OutFile} (h : out.limit = none) (bs : List UInt8) :
    out.fwrite bs = (bs.length, out.append bs) := by
  simp [fwrite, room, h]

end OutFile

/-! ### Counted writes -/

/-- A write procedure on a sink: the number of bytes written. -/
abbrev WriteProc (τ : Type) := List UInt8 → τ → Nat × τ

/-- A write that reports how many bytes it wrote. -/
abbrev CountedWrite (τ : Type) := τ → Nat × τ

namespace CountedWrite

variable {τ : Type}

def zero : CountedWrite τ := fun t => (0, t)

/-- One write after the other; the counts are added, complete or not. -/
def plus (a b : CountedWrite τ) : CountedWrite τ := fun t =>
  match a t with
  | (m, t) =>
    match b t with
    | (n, t) => (m + n, t)

end CountedWrite

/-- A counted write of `bs`: everything is written, or the device is full afterwards. -/
def Counts (w : CountedWrite OutFile) (bs : List UInt8) : Prop :=
  ∀ out, (w out).2.limit = out.limit ∧
    (w out = (bs.length, out.append bs) ∨ (w out).2.Full)

theorem counts_fwrite (bs : List UInt8) : Counts (OutFile.fwrite bs) bs := by
  intro out
  refine ⟨rfl, ?_⟩
  by_cases h : out.room bs.length = bs.length
  · left
    simp [OutFile.fwrite, h]
  · right
    simp only [OutFile.room] at h
    cases hl : out.limit with
    | none => simp [hl] at h
    | some l =>
      rw [hl] at h
      refine ⟨l, hl, ?_⟩
      simp only [OutFile.fwrite, OutFile.room, hl, OutFile.append_written, List.length_append,
        List.length_take]
      simp only at h
      omega

theorem counts_zero : Counts CountedWrite.zero [] := fun out =>
  ⟨rfl, Or.inl (by simp [CountedWrite.zero])⟩

theorem Counts.full {w : CountedWrite OutFile} {bs : List UInt8} (h : Counts w bs)
    {out : OutFile} (hf : out.Full) : (w out).2.Full := by
  rcases (h out).2 with he | hf'
  · rw [he]
    exact hf.append bs
  · exact hf'

theorem counts_plus {a b : CountedWrite OutFile} {xs ys : List UInt8} (ha : Counts a xs)
    (hb : Counts b ys) : Counts (CountedWrite.plus a b) (xs ++ ys) := by
  intro out
  have hfst : (CountedWrite.plus a b out).2 = (b (a out).2).2 := rfl
  refine ⟨?_, ?_⟩
  · rw [hfst, (hb _).1, (ha out).1]
  · rcases (ha out).2 with he | hf
    · rcases (hb (out.append xs)).2 with he' | hf'
      · left
        simp [CountedWrite.plus, he, he', OutFile.append_append]
      · right
        rw [hfst, he]
        exact hf'
    · right
      rw [hfst]
      exact hb.full hf

/-- On a device that never fails a counted write is complete. -/
theorem Counts.of_unlimited {w : CountedWrite OutFile} {bs : List UInt8} (h : Counts w bs)
    {out : OutFile} (hl : out.limit = none) : w out = (bs.length, out.append bs) := by
  rcases (h out).2 with he | ⟨l, hl', -⟩
  · exact he
  · rw [(h out).1, hl] at hl'
    cases hl'

/-! ### Checked writes -/

/-- A write checked by its caller: whether it succeeded, and the stream after it. -/
abbrev WriteStep := OutFile → Bool × OutFile

/-- `fwrite(bs, ..) == length`. -/
def put (bs : List UInt8) : WriteStep := fun out =>
  match out.fwrite bs with
  | (n, out) => (n == bs.length, out)

/-- A counted write that fails when fewer than `n` bytes were counted. -/
def atLeast (n : Nat) (w : CountedWrite OutFile) : WriteStep := fun out =>
  match w out with
  | (m, out) => (decide (n ≤ m), out)

/-- The second write is attempted only when the first one succeeded. -/
def andThen (a b : WriteStep) : WriteStep := fun out =>
  match a out with
  | (true, out) => b out
  | (false, out) => (false, out)

/-- The meaning of a checked write: a success has written exactly `bs`, a device that never
fails gives success, and a full device accepts nothing. -/
structure Emits (a : WriteStep) (bs : List UInt8) : Prop where
  written : ∀ out, (a out).1 = true → (a out).2 = out.append bs
  unlimited : ∀ out, out.limit = none → (a out).1 = true
  full : ∀ out, out.Full → bs ≠ [] → (a out).1 = false

theorem Emits.cases {a : WriteStep} {bs : List UInt8} (h : Emits a bs) (out : OutFile) :
    a out = (true, out.append bs) ∨ ∃ out', a out = (false, out') ∧ out.limit ≠ none := by
  cases ha : a out with
  | mk ok out' =>
    cases ok with
    | true =>
      have hw := h.written out (by rw [ha])
      rw [ha] at hw
      exact Or.inl (by rw [← hw])
    | false =>
      refine Or.inr ⟨out', rfl, fun hl => ?_⟩
      have hu := h.unlimited out hl
      rw [ha] at hu
      cases hu

theorem emits_put (bs : List UInt8) : Emits (put bs) bs := by
  refine ⟨fun out h => ?_, fun out h => ?_, fun out h hne => ?_⟩
  · have hn : out.room bs.length = bs.length := by simpa [put, OutFile.fwrite] using h
    simp [put, OutFile.fwrite, hn]
  · simp [put, OutFile.fwrite_of_unlimited h]
  · have hlen : 0 ≠ bs.length := fun h0 => hne (List.length_eq_zero_iff.mp h0.symm)
    simpa [put, OutFile.fwrite, OutFile.room_of_full h] using hlen

theorem andThen_of_true {a : WriteStep} {out : OutFile} (h : (a out).1 = true) (b : WriteStep) :
    andThen a b out = b (a out).2 := by
  cases he : a out with
  | mk ok out' =>
    rw [he] at h
    simp only at h
    subst h
    simp only [andThen, he]

theorem andThen_of_false {a : WriteStep} {out : OutFile} (h : (a out).1 = false)
    (b : WriteStep) : andThen a b out = (false, (a out).2) := by
  cases he : a out with
  | mk ok out' =>
    rw [he] at h
    simp only at h
    subst h
    simp only [andThen, he]

theorem fst_of_andThen {a b : WriteStep} {out : OutFile} (h : (andThen a b out).1 = true) :
    (a out).1 = true ∧ (b (a out).2).1 = true := by
  cases ha : (a out).1 with
  | false =>
    rw [andThen_of_false ha] at h
    cases h
  | true =>
    rw [andThen_of_true ha] at h
    exact ⟨rfl, h⟩

theorem emits_andThen {a b : WriteStep} {xs ys : List UInt8} (ha : Emits a xs)
    (hb : Emits b ys) : Emits (andThen a b) (xs ++ ys) := by
  refine ⟨fun out h => ?_, fun out h => ?_, fun out h hne => ?_⟩
  · obtain ⟨h₁, h₂⟩ := fst_of_andThen h
    have he := ha.written out h₁
    rw [andThen_of_true h₁, he]
    rw [he] at h₂
    rw [hb.written _ h₂, OutFile.append_append]
  · have h₁ := ha.unlimited out h
    rw [andThen_of_true h₁, ha.written out h₁]
    exact hb.unlimited _ h
  · cases h₁ : (a out).1 with
    | false => rw [andThen_of_false h₁]
    | true =>
      have hxs : xs = [] := by
        by_contra hx
        rw [ha.full out h hx] at h₁
        cases h₁
      subst hxs
      rw [andThen_of_true h₁, ha.written out h₁]
      exact hb.full _ (h.append []) hne

/-- A write that is not attempted. -/
def noWrite : WriteStep := fun out => (true, out)

theorem emits_noWrite : Emits noWrite [] :=
  ⟨fun out _ => (out.append_nil).symm, fun _ _ => rfl, fun _ _ hne => absurd rfl hne⟩

theorem emits_ite {a b : WriteStep} {xs ys : List UInt8} (c : Prop) [Decidable c]
    (ha : Emits a xs) (hb : Emits b ys) :
    Emits (if c then a else b) (if c then xs else ys) := by
  split
  · exact ha
  · exact hb

/-- A counted write may be checked against fewer bytes than it has: as long as a checked write
follows, a success still means that all of it was written. -/
theorem emits_atLeast_andThen {w : CountedWrite OutFile} {b : WriteStep} {xs ys : List UInt8}
    {n : Nat} (hw : Counts w xs) (hn : n ≤ xs.length) (hb : Emits b ys) (hys : ys ≠ []) :
    Emits (andThen (atLeast n w) b) (xs ++ ys) := by
  have hsnd : ∀ out, (atLeast n w out).2 = (w out).2 := fun _ => rfl
  refine ⟨fun out h => ?_, fun out h => ?_, fun out h hne => ?_⟩
  · obtain ⟨h₁, h₂⟩ := fst_of_andThen h
    rw [andThen_of_true h₁, hsnd]
    rw [hsnd] at h₂
    rcases (hw out).2 with he | hf
    · rw [he] at h₂ ⊢
      rw [hb.written _ h₂, OutFile.append_append]
    · rw [hb.full _ hf hys] at h₂
      cases h₂
  · have he := hw.of_unlimited h
    have h₁ : (atLeast n w out).1 = true := by simp [atLeast, he, hn]
    rw [andThen_of_true h₁, hsnd, he]
    exact hb.unlimited _ h
  · cases h₁ : (atLeast n w out).1 with
    | false => rw [andThen_of_false h₁]
    | true =>
      rw [andThen_of_true h₁, hsnd]
      exact hb.full _ (hw.full h) hys

end Stdio
