import Mathlib.Algebra.Order.Ring.Nat
import Mathlib.Data.List.Basic

/-!
# String literals of JSON

The grammar of a string literal in ASCII text: quotes around characters that stand for themselves,
escapes of one letter, and escapes of four hexadecimal digits. A literal stands for one string only
(`StringLiteral.unique`).
-/

namespace Json

/-- The value of a hexadecimal digit. -/
def hexValue (c : UInt8) : Option Nat :=
  if 0x30 ≤ c ∧ c ≤ 0x39 then some (c.toNat - 0x30)
  else if 0x41 ≤ c ∧ c ≤ 0x46 then some (c.toNat - 0x37)
  else if 0x61 ≤ c ∧ c ≤ 0x66 then some (c.toNat - 0x57)
  else none

/-- The number with four hexadecimal digits. -/
def hexCode (a b c d : UInt8) : Option Nat := do
  let a ← hexValue a
  let b ← hexValue b
  let c ← hexValue c
  let d ← hexValue d
  return ((a * 16 + b) * 16 + c) * 16 + d

/-- What a letter after a backslash stands for. -/
def escapeValue (e : UInt8) : Option Nat :=
  [(0x22, 0x22), (0x5c, 0x5c), (0x2f, 0x2f), (0x62, 0x08), (0x66, 0x0c), (0x6e, 0x0a), (0x72, 0x0d),
    (0x74, 0x09)].lookup e

/-- The text between the quotes, and the code units that it stands for. -/
inductive Characters : List UInt8 → List Nat → Prop
  | nil : Characters [] []
  | plain {c : UInt8} {text : List UInt8} {units : List Nat} (hlow : 0x20 ≤ c) (hhigh : c < 0x80)
      (hquote : c ≠ 0x22) (hbackslash : c ≠ 0x5c) (h : Characters text units) :
      Characters (c :: text) (c.toNat :: units)
  | escape {e : UInt8} {v : Nat} {text : List UInt8} {units : List Nat}
      (he : escapeValue e = some v)
      (h : Characters text units) : Characters (0x5c :: e :: text) (v :: units)
  | unicode {a b c d : UInt8} {v : Nat} {text : List UInt8} {units : List Nat}
      (hv : hexCode a b c d = some v) (h : Characters text units) :
      Characters (0x5c :: 0x75 :: a :: b :: c :: d :: text) (v :: units)

/-- A whole literal. -/
def StringLiteral (literal : List UInt8) (units : List Nat) : Prop :=
  ∃ text, literal = 0x22 :: (text ++ [0x22]) ∧ Characters text units

theorem Characters.unique {text : List UInt8} {units units' : List Nat} (h : Characters text units)
    (h' : Characters text units') : units = units' := by
  induction h generalizing units' with
  | nil =>
    cases h'
    rfl
  | plain _ _ _ hbackslash _ ih =>
    cases h' with
    | plain _ _ _ _ h' => rw [ih h']
    | escape _ _ => exact absurd rfl hbackslash
    | unicode _ _ => exact absurd rfl hbackslash
  | escape he _ ih =>
    cases h' with
    | plain _ _ _ hbackslash _ => exact absurd rfl hbackslash
    | escape he' h' =>
      rw [he] at he'
      rw [Option.some.inj he', ih h']
    | unicode _ _ => cases he
  | unicode hv _ ih =>
    cases h' with
    | plain _ _ _ hbackslash _ => exact absurd rfl hbackslash
    | escape he' _ => cases he'
    | unicode hv' h' =>
      rw [hv] at hv'
      rw [Option.some.inj hv', ih h']

theorem StringLiteral.unique {literal : List UInt8} {units units' : List Nat}
    (h : StringLiteral literal units) (h' : StringLiteral literal units') : units = units' := by
  obtain ⟨text, htext, hunits⟩ := h
  obtain ⟨text', htext', hunits'⟩ := h'
  rw [htext, List.cons.injEq] at htext'
  obtain rfl := (List.append_inj' htext'.2 rfl).1
  exact hunits.unique hunits'

theorem Characters.append {a b : List UInt8} {u v : List Nat} (ha : Characters a u)
    (hb : Characters b v) : Characters (a ++ b) (u ++ v) := by
  induction ha with
  | nil => exact hb
  | plain hlow hhigh hquote hbackslash _ ih => exact .plain hlow hhigh hquote hbackslash ih
  | escape he _ ih => exact .escape he ih
  | unicode hv _ ih => exact .unicode hv ih

/-- A decimal digit is a hexadecimal one of the same value. -/
theorem hexValue_digit {n : Nat} (h : n < 10) : hexValue (UInt8.ofNat (0x30 + n)) = some n := by
  revert n
  decide

end Json
