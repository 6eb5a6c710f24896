import Mathlib.Algebra.Order.Ring.Nat
import Mathlib.Data.List.Basic

/-!
# JSON documents as tokens

A `Value` is a JSON value whose numbers are atomic literals of any type, and `tokens` is the
sequence of tokens that writes it. A sequence is well formed when it is that of a value, and then of
one value only (`tokens_injective`): a value can be read back from its tokens.

A printer that writes a document piece by piece has to know whether a comma is due before the
next piece. `memberTokens` and `elementTokens` take this as a flag, so that a list of members or of
elements can be split anywhere (`memberTokens_append`, `elementTokens_append`).
-/

namespace Json

inductive Token (L : Type) where
  | objectStart
  | objectEnd
  | arrayStart
  | arrayEnd
  | comma
  | colon
  | string (s : List UInt8)
  | literal (l : L)
  | boolean (b : Bool)
  | null

inductive Value (L : Type) where
  | null
  | boolean (b : Bool)
  | literal (l : L)
  | string (s : List UInt8)
  | array (elements : List (Value L))
  | object (members : List (List UInt8 × Value L))

variable {L : Type}

/-- The comma that is due before the next value or key. -/
def separator (pending : Bool) : List (Token L) := if pending then [.comma] else []

mutual

def tokens : Value L → List (Token L)
  | .null => [.null]
  | .boolean b => [.boolean b]
  | .literal l => [.literal l]
  | .string s => [.string s]
  | .array elements => .arrayStart :: (elementTokens false elements ++ [.arrayEnd])
  | .object members => .objectStart :: (memberTokens false members ++ [.objectEnd])

def elementTokens : Bool → List (Value L) → List (Token L)
  | _, [] => []
  | pending, element :: rest => separator pending ++ (tokens element ++ elementTokens true rest)

def memberTokens : Bool → List (List UInt8 × Value L) → List (Token L)
  | _, [] => []
  | pending, (key, value) :: rest =>
    separator pending ++ (.string key :: .colon :: (tokens value ++ memberTokens true rest))

end

theorem elementTokens_append (pending : Bool) (xs ys : List (Value L)) :
    elementTokens pending (xs ++ ys) =
      elementTokens pending xs ++ elementTokens (pending || !xs.isEmpty) ys := by
  induction xs generalizing pending with
  | nil => simp [elementTokens]
  | cons x xs ih => simp [elementTokens, ih]

theorem memberTokens_append (pending : Bool) (xs ys : List (List UInt8 × Value L)) :
    memberTokens pending (xs ++ ys) =
      memberTokens pending xs ++ memberTokens (pending || !xs.isEmpty) ys := by
  induction xs generalizing pending with
  | nil => simp [memberTokens]
  | cons x xs ih =>
    obtain ⟨key, value⟩ := x
    simp [memberTokens, ih]

/-! ## Reading back -/

/-- A value does not start with a closing bracket. -/
theorem tokens_ne_end (value : Value L) (r r' : List (Token L)) :
    tokens value ++ r ≠ .arrayEnd :: r' ∧ tokens value ++ r ≠ .objectEnd :: r' := by
  cases value <;> simp [tokens]

mutual

/-- A value is found at the start of a sequence in one way only. -/
theorem tokens_append_inj (v w : Value L) (r r' : List (Token L))
    (h : tokens v ++ r = tokens w ++ r') : v = w ∧ r = r' := by
  cases v with
  | array elements =>
    cases w with
    | array elements' =>
      obtain ⟨rfl, rfl⟩ := elementTokens_append_inj elements false elements' r r'
        (by simpa [tokens] using h)
      exact ⟨rfl, rfl⟩
    | _ => simp [tokens] at h
  | object members =>
    cases w with
    | object members' =>
      obtain ⟨rfl, rfl⟩ := memberTokens_append_inj members false members' r r'
        (by simpa [tokens] using h)
      exact ⟨rfl, rfl⟩
    | _ => simp [tokens] at h
  | _ =>
    cases w with
    | _ => simp_all [tokens]

theorem elementTokens_append_inj (xs : List (Value L)) (pending : Bool) (ys : List (Value L))
    (r r' : List (Token L))
    (h : elementTokens pending xs ++ .arrayEnd :: r = elementTokens pending ys ++ .arrayEnd :: r') :
    xs = ys ∧ r = r' := by
  cases xs with
  | nil =>
    cases ys with
    | nil => simpa [elementTokens] using h
    | cons y ys =>
      cases pending with
      | true => simp [elementTokens, separator] at h
      | false =>
        simp only [elementTokens, separator, Bool.false_eq_true, if_false, List.nil_append,
          List.append_assoc] at h
        exact absurd h.symm (tokens_ne_end y _ _).1
  | cons x xs =>
    cases ys with
    | nil =>
      cases pending with
      | true => simp [elementTokens, separator] at h
      | false =>
        simp only [elementTokens, separator, Bool.false_eq_true, if_false, List.nil_append,
          List.append_assoc] at h
        exact absurd h (tokens_ne_end x _ _).1
    | cons y ys =>
      simp only [elementTokens, List.append_assoc, List.append_cancel_left_eq] at h
      obtain ⟨rfl, htail⟩ := tokens_append_inj x y _ _ h
      obtain ⟨rfl, rfl⟩ := elementTokens_append_inj xs true ys r r' htail
      exact ⟨rfl, rfl⟩

theorem memberTokens_append_inj (xs : List (List UInt8 × Value L)) (pending : Bool)
    (ys : List (List UInt8 × Value L)) (r r' : List (Token L))
    (h : memberTokens pending xs ++ .objectEnd :: r = memberTokens pending ys ++ .objectEnd :: r') :
    xs = ys ∧ r = r' := by
  cases xs with
  | nil =>
    cases ys with
    | nil => simpa [memberTokens] using h
    | cons y ys =>
      cases pending <;> simp [memberTokens, separator] at h
  | cons x xs =>
    obtain ⟨key, value⟩ := x
    cases ys with
    | nil => cases pending <;> simp [memberTokens, separator] at h
    | cons y ys =>
      obtain ⟨key', value'⟩ := y
      simp only [memberTokens, List.append_assoc, List.append_cancel_left_eq, List.cons_append,
        List.cons.injEq, Token.string.injEq, true_and] at h
      obtain ⟨rfl, h⟩ := h
      obtain ⟨rfl, htail⟩ := tokens_append_inj value value' _ _ h
      obtain ⟨rfl, rfl⟩ := memberTokens_append_inj xs true ys r r' htail
      exact ⟨rfl, rfl⟩

end

theorem tokens_injective : Function.Injective (tokens : Value L → List (Token L)) := by
  intro v w h
  exact (tokens_append_inj v w [] [] (by rw [h])).1

end Json
