import Mathlib.Data.List.TakeWhile
import Mathlib.Algebra.Order.Ring.Rat
import FlvMeta.Base.Endian

/-!
# Integers, numbers and C strings of the program

The host is little-endian with a 64-bit `size_t` and `file_offset_t`. Sizes and offsets are
naturals; where a value is stored in a `uint32` and may exceed it, the reduction modulo `2^32`
is written out.

`number64` is the `double` of the host. The program moves its 64 bits unchanged between memory
and file (`NumberImage`) and calculates with it (`Number64`). Every definition is generic in
both, so that a result holds for any arithmetic, or for exact arithmetic on the rationals
with an arbitrary 64-bit image.
-/

namespace FlvMeta

open Endian

abbrev Bytes := List UInt8

/-- The characters of a string literal. -/
def ascii (s : String) : Bytes := s.toList.map fun c => UInt8.ofNat c.toNat

/-! ## Byte swapping -/

def swapUint16 (x : Nat) : Nat := ofLE (toLE 2 x).reverse

def swapUint32 (x : Nat) : Nat := ofLE (toLE 4 x).reverse

/-- `swap_number64`, on the 64-bit pattern of the number. -/
def swapNumber64 (x : Nat) : Nat := ofLE (toLE 8 x).reverse

@[simp] theorem toLE_swapUint16 (x : Nat) : toLE 2 (swapUint16 x) = toBE 2 x :=
  toLE_ofLE_reverse 2 x

@[simp] theorem toLE_swapUint32 (x : Nat) : toLE 4 (swapUint32 x) = toBE 4 x :=
  toLE_ofLE_reverse 4 x

@[simp] theorem toLE_swapNumber64 (x : Nat) : toLE 8 (swapNumber64 x) = toBE 8 x :=
  toLE_ofLE_reverse 8 x

theorem swapUint16_ofLE {bs : Bytes} (h : bs.length = 2) : swapUint16 (ofLE bs) = ofBE bs := by
  rw [swapUint16, ← h, toLE_ofLE, ofBE]

theorem swapUint32_ofLE {bs : Bytes} (h : bs.length = 4) : swapUint32 (ofLE bs) = ofBE bs := by
  rw [swapUint32, ← h, toLE_ofLE, ofBE]

theorem swapNumber64_ofLE {bs : Bytes} (h : bs.length = 8) : swapNumber64 (ofLE bs) = ofBE bs := by
  rw [swapNumber64, ← h, toLE_ofLE, ofBE]

theorem swapUint16_lt (x : Nat) : swapUint16 x < 2 ^ 16 := by
  simpa [swapUint16] using ofLE_lt (toLE 2 x).reverse

theorem swapUint32_lt (x : Nat) : swapUint32 x < 2 ^ 32 := by
  simpa [swapUint32] using ofLE_lt (toLE 4 x).reverse

/-- Subtraction of `uint32` values. -/
def subUint32 (a b : Nat) : Nat := (a + 2 ^ 32 - b % 2 ^ 32) % 2 ^ 32

theorem subUint32_of_le {a b : Nat} (hb : b < 2 ^ 32) (h : b ≤ a) :
    subUint32 a b = (a - b) % 2 ^ 32 := by
  unfold subUint32
  omega

/-- Subtraction of `size_t` values. -/
def subSize (a b : Nat) : Nat := (a + 2 ^ 64 - b % 2 ^ 64) % 2 ^ 64

/-! ## 24-bit big-endian integers -/

structure Uint24Be where
  b0 : UInt8
  b1 : UInt8
  b2 : UInt8
deriving DecidableEq, Repr

namespace Uint24Be

def bytes (x : Uint24Be) : Bytes := [x.b0, x.b1, x.b2]

/-- The first three bytes of a buffer. -/
def ofBytes (bs : Bytes) : Uint24Be := ⟨bs.getD 0 0, bs.getD 1 0, bs.getD 2 0⟩

@[simp] theorem length_bytes (x : Uint24Be) : x.bytes.length = 3 := rfl

@[simp] theorem ofBytes_bytes (x : Uint24Be) : ofBytes x.bytes = x := rfl

end Uint24Be

def uint24BeToUint32 (x : Uint24Be) : Nat := ofBE x.bytes

def uint32ToUint24Be (l : Nat) : Uint24Be :=
  ⟨UInt8.ofNat (l / 2 ^ 16), UInt8.ofNat (l / 2 ^ 8), UInt8.ofNat l⟩

theorem uint24BeToUint32_eq (x : Uint24Be) :
    uint24BeToUint32 x = x.b0.toNat * 2 ^ 16 + x.b1.toNat * 2 ^ 8 + x.b2.toNat := by
  simp only [uint24BeToUint32, Uint24Be.bytes, ofBE, List.reverse_cons, List.reverse_nil,
    List.nil_append, List.cons_append, ofLE]
  omega

theorem uint24BeToUint32_lt (x : Uint24Be) : uint24BeToUint32 x < 2 ^ 24 := by
  simpa [uint24BeToUint32] using ofBE_lt x.bytes

theorem uint24BeToUint32_of_uint32 (l : Nat) :
    uint24BeToUint32 (uint32ToUint24Be l) = l % 2 ^ 24 := by
  simp only [uint24BeToUint32_eq, uint32ToUint24Be, UInt8.toNat_ofNat']
  omega

/-! ## Numbers -/

/-- How a number is stored: its 64-bit pattern. -/
class NumberImage (N : Type) where
  bits : N → UInt64
  ofBits : UInt64 → N

/-- Storing a number and loading it gives the same number. -/
class LawfulNumberImage (N : Type) [NumberImage N] : Prop where
  ofBits_bits : ∀ x : N, NumberImage.ofBits (NumberImage.bits x) = x

/-- Arithmetic on numbers; `ofInt` is the conversion from the integer types. -/
class Number64 (N : Type) extends NumberImage N where
  ofInt : Int → N
  add : N → N → N
  sub : N → N → N
  mul : N → N → N
  div : N → N → N
  le : N → N → Bool

/-- Exact arithmetic, whatever the images of the rationals are. -/
instance exactNumber64 [NumberImage ℚ] : Number64 ℚ where
  ofInt n := (n : ℚ)
  add x y := x + y
  sub x y := x - y
  mul x y := x * y
  div x y := x / y
  le x y := decide (x ≤ y)

/-- An image that forgets the number, for results in which no number is stored and read again. -/
@[reducible] def blankImage : NumberImage ℚ := ⟨fun _ => 0, fun _ => 0⟩

/-- Numbers as their bit patterns. -/
instance : NumberImage UInt64 := ⟨id, id⟩

instance : LawfulNumberImage UInt64 := ⟨fun _ => rfl⟩

/-! ## C strings -/

/-- The C string that starts a buffer: everything before the first zero byte. -/
def cString (bs : Bytes) : Bytes := bs.takeWhile (· != 0)

/-- `strncmp(a, b, n) == 0`; past its end, each argument reads as its terminating zero. -/
def strncmpEq : Bytes → Bytes → Nat → Bool
  | _, _, 0 => true
  | [], [], _ + 1 => true
  | [], b :: _, _ + 1 => b == 0
  | a :: _, [], _ + 1 => a == 0
  | a :: as, b :: bs, n + 1 => a == b && (a == 0 || strncmpEq as bs n)

/-- A C string holds no zero byte. -/
def NulFree (s : Bytes) : Prop := ∀ b ∈ s, b ≠ 0

instance (s : Bytes) : Decidable (NulFree s) := List.decidableBAll (· ≠ 0) s

theorem nulFree_cString (bs : Bytes) : NulFree (cString bs) := by
  intro b hb
  simpa using List.mem_takeWhile_imp hb

theorem cString_of_nulFree {s : Bytes} (h : NulFree s) : cString s = s := by
  rw [cString, List.takeWhile_eq_self_iff]
  intro b hb
  simpa using h b hb

theorem length_cString_le (bs : Bytes) : (cString bs).length ≤ bs.length := by
  simpa [cString] using (List.takeWhile_prefix (l := bs) (· != 0)).length_le

/-- Comparing up to the length of the first argument tests for a prefix of the second, or for all
of it and its terminating zero. -/
theorem strncmpEq_length_iff {a b : Bytes} (hb : NulFree b) :
    strncmpEq a b a.length = true ↔ a <+: b ∨ b ++ [0] <+: a := by
  induction a generalizing b with
  | nil => simp [strncmpEq]
  | cons x xs ih =>
    cases b with
    | nil =>
      rw [List.length_cons, strncmpEq, List.nil_append, List.cons_prefix_cons, beq_iff_eq]
      simp [eq_comm (a := (0 : UInt8))]
    | cons y ys =>
      have hy : y ≠ 0 := hb y (by simp)
      have hys : NulFree ys := fun z hz => hb z (by simp [hz])
      rw [List.length_cons, strncmpEq, List.cons_append, List.cons_prefix_cons,
        List.cons_prefix_cons, Bool.and_eq_true, Bool.or_eq_true, ih hys, beq_iff_eq, beq_iff_eq]
      constructor
      · rintro ⟨rfl, hzero | hstarts | hends⟩
        · exact absurd hzero hy
        · exact Or.inl ⟨rfl, hstarts⟩
        · exact Or.inr ⟨rfl, hends⟩
      · rintro (⟨rfl, hstarts⟩ | ⟨rfl, hends⟩)
        · exact ⟨rfl, Or.inr (Or.inl hstarts)⟩
        · exact ⟨rfl, Or.inr (Or.inr hends)⟩

/-- On C strings it tests for a prefix. -/
theorem strncmpEq_iff_starts {a b : Bytes} (ha : NulFree a) (hb : NulFree b) :
    strncmpEq a b a.length = true ↔ a <+: b := by
  rw [strncmpEq_length_iff hb, or_iff_left_iff_imp]
  exact fun hends => absurd rfl (ha 0 (hends.subset (by simp)))

end FlvMeta
