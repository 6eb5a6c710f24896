import FlvMeta.Base.Stdio

/-!
# Sequences of writes

A procedure that writes its output in pieces and adds the counts it gets back. When no count exceeds
what was asked for, the sum is at most the length of the pieces, with equality only when every
single write was complete (`count_writeAll_eq_iff`).
-/

namespace Stdio

variable {τ : Type}

namespace CountedWrite

@[simp] theorem zero_plus (a : CountedWrite τ) : plus zero a = a := by
  funext t
  simp [plus, zero]

@[simp] theorem plus_zero (a : CountedWrite τ) : plus a zero = a := by
  funext t
  simp [plus, zero]

theorem plus_assoc (a b c : CountedWrite τ) : plus (plus a b) c = plus a (plus b c) := by
  funext t
  simp [plus, Nat.add_assoc]

end CountedWrite

/-- The pieces one after the other, whatever the counts are. -/
def writeAll (writeProc : WriteProc τ) : List (List UInt8) → CountedWrite τ
  | [] => .zero
  | piece :: pieces => .plus (writeProc piece) (writeAll writeProc pieces)

/-- Every piece is written as a whole. -/
def AllComplete (writeProc : WriteProc τ) : List (List UInt8) → τ → Prop
  | [], _ => True
  | piece :: pieces, t =>
    (writeProc piece t).1 = piece.length ∧ AllComplete writeProc pieces (writeProc piece t).2

/-- A procedure that never reports more than it was asked to write. -/
def Modest (writeProc : WriteProc τ) : Prop := ∀ piece t, (writeProc piece t).1 ≤ piece.length

variable (writeProc : WriteProc τ)

@[simp] theorem writeAll_singleton (piece : List UInt8) :
    writeAll writeProc [piece] = writeProc piece := by
  simp [writeAll]

theorem writeAll_append (ps qs : List (List UInt8)) :
    writeAll writeProc (ps ++ qs) =
      CountedWrite.plus (writeAll writeProc ps) (writeAll writeProc qs) := by
  induction ps with
  | nil => simp [writeAll]
  | cons p ps ih => rw [List.cons_append, writeAll, writeAll, ih, CountedWrite.plus_assoc]

theorem count_writeAll_cons (piece : List UInt8) (pieces : List (List UInt8)) (t : τ) :
    (writeAll writeProc (piece :: pieces) t).1 =
      (writeProc piece t).1 + (writeAll writeProc pieces (writeProc piece t).2).1 := rfl

theorem count_writeAll_le (h : Modest writeProc) (pieces : List (List UInt8)) (t : τ) :
    (writeAll writeProc pieces t).1 ≤ pieces.flatten.length := by
  induction pieces generalizing t with
  | nil => exact Nat.le_refl 0
  | cons piece pieces ih =>
    have hpiece := h piece t
    have hrest := ih (writeProc piece t).2
    rw [count_writeAll_cons, List.flatten_cons, List.length_append]
    omega

theorem count_writeAll_eq_iff (h : Modest writeProc) (pieces : List (List UInt8)) (t : τ) :
    (writeAll writeProc pieces t).1 = pieces.flatten.length ↔ AllComplete writeProc pieces t := by
  induction pieces generalizing t with
  | nil => simp [writeAll, CountedWrite.zero, AllComplete]
  | cons piece pieces ih =>
    have hpiece := h piece t
    have hrest := count_writeAll_le writeProc h pieces (writeProc piece t).2
    rw [count_writeAll_cons, List.flatten_cons, List.length_append, AllComplete, ← ih]
    omega

end Stdio
