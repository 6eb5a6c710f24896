import Mathlib.Algebra.Order.Ring.Nat
import Mathlib.Data.List.Basic

/-!
# Byte sources

A byte source is a state from which a procedure reads a given number of bytes. As long as
enough bytes are left it delivers them and advances; when they are not, it delivers fewer and
the amount of unread input does not grow. Nothing else is said about a short read: a source may
deliver what is left or nothing at all.
-/

/-- A read procedure together with the unread input of a state and the state reached after
reading `n` bytes of it. -/
structure ByteSource (σ : Type) where
  readProc : Nat → σ → List UInt8 × σ
  rest : σ → List UInt8
  advance : Nat → σ → σ
  read_full : ∀ {n : Nat} {s : σ}, n ≤ (rest s).length →
    readProc n s = ((rest s).take n, advance n s)
  read_short : ∀ {n : Nat} {s : σ}, (rest s).length < n → (readProc n s).1.length < n
  rest_read_le : ∀ (n : Nat) (s : σ),
    (rest (readProc n s).2).length + (readProc n s).1.length ≤ (rest s).length
  rest_advance : ∀ (n : Nat) (s : σ), rest (advance n s) = (rest s).drop n
  advance_advance : ∀ (m n : Nat) (s : σ), advance n (advance m s) = advance (m + n) s
  advance_zero : ∀ s : σ, advance 0 s = s

namespace ByteSource

variable {σ : Type} (src : ByteSource σ)

/-- Read `n` bytes. -/
def read (n : Nat) (s : σ) : List UInt8 × σ := src.readProc n s

theorem read_of_le {n : Nat} {s : σ} (h : n ≤ (src.rest s).length) :
    src.read n s = ((src.rest s).take n, src.advance n s) :=
  src.read_full h

theorem read_of_lt {n : Nat} {s : σ} (h : (src.rest s).length < n) :
    (src.read n s).1.length < n :=
  src.read_short h

theorem length_read_le (n : Nat) (s : σ) : (src.read n s).1.length ≤ n := by
  by_cases h : n ≤ (src.rest s).length
  · rw [src.read_of_le h]
    exact List.length_take_le n _
  · exact Nat.le_of_lt (src.read_of_lt (Nat.lt_of_not_le h))

/-- `xs` is what comes next, with `ys` after it. -/
theorem read_append {s : σ} {xs ys : List UInt8} (h : src.rest s = xs ++ ys) :
    src.read xs.length s = (xs, src.advance xs.length s) := by
  rw [src.read_of_le (by simp [h]), h, List.take_left]

theorem rest_advance_append {s : σ} {xs ys : List UInt8} (h : src.rest s = xs ++ ys) :
    src.rest (src.advance xs.length s) = ys := by
  rw [src.rest_advance, h, List.drop_left]

theorem read_cons {s : σ} {x : UInt8} {ys : List UInt8} (h : src.rest s = x :: ys) :
    src.read 1 s = ([x], src.advance 1 s) :=
  src.read_append (show src.rest s = [x] ++ ys from h)

theorem rest_advance_cons {s : σ} {x : UInt8} {ys : List UInt8} (h : src.rest s = x :: ys) :
    src.rest (src.advance 1 s) = ys :=
  src.rest_advance_append (show src.rest s = [x] ++ ys from h)

/-! ## Two sources side by side -/

/-- The second source delivers what the first one does, as long as the first has not run dry and
is not in a state that is bad; from there on nothing is said about it. -/
structure Simulation {σ τ : Type} (src₁ : ByteSource σ) (src₂ : ByteSource τ) where
  Rel : σ → τ → Prop
  Dry : σ → Prop
  Bad : σ → Prop
  full {n : Nat} {s : σ} {t : τ} : 0 < n → Rel s t → ¬ Bad (src₁.read n s).2 →
    (src₁.read n s).1.length = n →
    (src₂.read n t).1 = (src₁.read n s).1 ∧ Rel (src₁.read n s).2 (src₂.read n t).2
  short {n : Nat} {s : σ} {t : τ} : 0 < n → Rel s t → ¬ Bad (src₁.read n s).2 →
    (src₁.read n s).1.length < n →
    ((src₂.read n t).1.length < n ∧ Rel (src₁.read n s).2 (src₂.read n t).2) ∨
      Dry (src₁.read n s).2
  dry {s : σ} {t : τ} : Dry s → Rel s t
  bad (n : Nat) (s : σ) : Bad s → Bad (src₁.read n s).2

/-! ## Reading on after a short read -/

/-- A state, whether a short read has left input behind, and whether something was read after
that. -/
structure Watched (σ : Type) where
  state : σ
  cut : Bool
  resumed : Bool

/-- The source with its short reads watched. -/
def watch (src : ByteSource σ) : ByteSource (Watched σ) where
  readProc n w :=
    ((src.read n w.state).1,
      { state := (src.read n w.state).2
        cut := w.cut || (decide ((src.read n w.state).1.length < n) &&
          !(src.rest (src.read n w.state).2).isEmpty)
        resumed := w.resumed || (w.cut && decide (n ≠ 0)) })
  rest w := src.rest w.state
  advance n w :=
    { w with
      state := src.advance n w.state
      resumed := w.resumed || (w.cut && decide (n ≠ 0)) }
  read_full {n w} h := by
    rw [src.read_of_le h]
    simp [List.length_take, Nat.min_eq_left h]
  read_short h := src.read_of_lt h
  rest_read_le n w := src.rest_read_le n w.state
  rest_advance n w := src.rest_advance n w.state
  advance_advance m n w := by
    cases w with
    | mk state cut resumed =>
      cases resumed <;> cases cut <;>
        simp [src.advance_advance, Nat.add_eq_zero_iff, imp_iff_not_or]
  advance_zero w := by simp [src.advance_zero]

theorem read_watch (n : Nat) (w : Watched σ) :
    src.watch.read n w =
      ((src.read n w.state).1,
        { state := (src.read n w.state).2
          cut := w.cut || (decide ((src.read n w.state).1.length < n) &&
            !(src.rest (src.read n w.state).2).isEmpty)
          resumed := w.resumed || (w.cut && decide (n ≠ 0)) }) := rfl

theorem cut_eq_false {n : Nat} (hn : 0 < n) {w : Watched σ}
    (h : ¬ (src.watch.read n w).2.resumed = true) : w.cut = false := by
  cases hcut : w.cut with
  | false => rfl
  | true =>
    refine absurd ?_ h
    rw [read_watch, hcut, decide_eq_true (Nat.ne_of_gt hn)]
    exact Bool.or_true _

/-- Watching changes nothing. -/
def unwatch : Simulation src.watch src where
  Rel w s := s = w.state
  Dry _ := False
  Bad _ := False
  full _ hrel _ _ := by
    subst hrel
    exact ⟨rfl, rfl⟩
  short _ hrel _ hlt := by
    subst hrel
    exact .inl ⟨hlt, rfl⟩
  dry hdry := hdry.elim
  bad _ _ hbad := hbad

end ByteSource
