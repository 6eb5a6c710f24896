import Mathlib.Algebra.Order.Ring.Nat
import Mathlib.Data.List.Basic

/-!
# Bit strings

Lists of bits, the first one being the most significant of what they encode. The Exp-Golomb code
of a natural `v` is the binary expansion of `v + 1` after one zero for each of its digits but the
first, so that the number of leading zeros says where the code ends (`ueCode_eq`).
-/

namespace Bits

/-- The `n` low binary digits of `v`. -/
def toBits : Nat → Nat → List Bool
  | 0, _ => []
  | n + 1, v => v.testBit n :: toBits n v

/-- The number with the binary digits `bits`. -/
def ofBits : List Bool → Nat
  | [] => 0
  | bit :: bits => bit.toNat * 2 ^ bits.length + ofBits bits

@[simp] theorem length_toBits (n v : Nat) : (toBits n v).length = n := by
  induction n with
  | zero => rfl
  | succ n ih => simp [toBits, ih]

theorem ofBits_lt (bits : List Bool) : ofBits bits < 2 ^ bits.length := by
  induction bits with
  | nil => simp [ofBits]
  | cons bit bits ih =>
    rw [ofBits, List.length_cons, Nat.pow_succ]
    cases bit
    · simp only [Bool.toNat_false]
      omega
    · simp only [Bool.toNat_true]
      omega

theorem ofBits_toBits (n v : Nat) : ofBits (toBits n v) = v % 2 ^ n := by
  induction n with
  | zero => simp [toBits, ofBits, Nat.mod_one]
  | succ n ih =>
    rw [toBits, ofBits, length_toBits, ih, Nat.mod_pow_succ, Nat.toNat_testBit, Nat.mul_comm,
      Nat.add_comm]

/-- A digit further on the left counts twice as much. -/
theorem ofBits_append_singleton (bits : List Bool) (bit : Bool) :
    ofBits (bits ++ [bit]) = 2 * ofBits bits + bit.toNat := by
  induction bits with
  | nil => simp [ofBits]
  | cons first bits ih =>
    simp only [List.cons_append, ofBits, ih, List.length_append, List.length_singleton,
      Nat.pow_succ]
    cases first
    · simp
    · simp only [Bool.toNat_true]
      omega

/-! ## The bits of bytes -/

/-- Each byte in turn, its high bit first. -/
def ofBytes (bytes : List UInt8) : List Bool := bytes.flatMap fun byte => toBits 8 byte.toNat

@[simp] theorem ofBytes_nil : ofBytes [] = [] := rfl

theorem ofBytes_cons (byte : UInt8) (bytes : List UInt8) :
    ofBytes (byte :: bytes) = toBits 8 byte.toNat ++ ofBytes bytes := by
  rw [ofBytes, List.flatMap_cons, ofBytes]

@[simp] theorem length_ofBytes (bytes : List UInt8) :
    (ofBytes bytes).length = 8 * bytes.length := by
  induction bytes with
  | nil => rfl
  | cons byte bytes ih =>
    rw [ofBytes_cons, List.length_append, ih, length_toBits, List.length_cons]
    omega

theorem getElem?_toBits {n i : Nat} (v : Nat) (h : i < n) :
    (toBits n v)[i]? = some (v.testBit (n - 1 - i)) := by
  induction n generalizing i with
  | zero => omega
  | succ n ih =>
    cases i with
    | zero => simp [toBits]
    | succ i =>
      rw [toBits, List.getElem?_cons_succ, ih (by omega)]
      congr 2
      omega

/-- Position `p` is a bit of byte `p / 8`. -/
theorem getElem?_ofBytes (bytes : List UInt8) (p : Nat) :
    (ofBytes bytes)[p]? = bytes[p / 8]?.map fun byte => byte.toNat.testBit (7 - p % 8) := by
  induction bytes generalizing p with
  | nil => simp
  | cons byte bytes ih =>
    rw [ofBytes_cons]
    rcases Nat.lt_or_ge p 8 with hp | hp
    · rw [List.getElem?_append_left (by simpa using hp), getElem?_toBits _ hp,
        Nat.div_eq_of_lt hp, Nat.mod_eq_of_lt hp]
      rfl
    · have hdiv : p / 8 = (p - 8) / 8 + 1 := by omega
      have hmod : p % 8 = (p - 8) % 8 := by omega
      rw [List.getElem?_append_right (by simpa using hp), length_toBits, ih, hdiv, hmod,
        List.getElem?_cons_succ]

/-! ## Exp-Golomb codes -/

/-- The code word of a natural. -/
def ueCode (v : Nat) : List Bool :=
  List.replicate (Nat.log2 (v + 1)) false ++ toBits (Nat.log2 (v + 1) + 1) (v + 1)

/-- The position of an integer in the order `0, 1, -1, 2, -2, …`. -/
def seIndex (s : Int) : Nat := if 0 < s then (2 * s - 1).toNat else (-2 * s).toNat

/-- The code word of an integer. -/
def seCode (s : Int) : List Bool := ueCode (seIndex s)

theorem two_pow_log2_le (v : Nat) : 2 ^ Nat.log2 (v + 1) ≤ v + 1 :=
  (Nat.le_log2 (Nat.succ_ne_zero v)).mp (Nat.le_refl _)

theorem lt_two_pow_log2 (v : Nat) : v + 1 < 2 ^ (Nat.log2 (v + 1) + 1) :=
  (Nat.log2_lt (Nat.succ_ne_zero v)).mp (Nat.lt_succ_self _)

/-- Leading zeros, a one, and as many more digits as there were zeros. -/
theorem ueCode_eq (v : Nat) :
    ueCode v = List.replicate (Nat.log2 (v + 1)) false ++
      true :: toBits (Nat.log2 (v + 1)) (v + 1) := by
  rw [ueCode, toBits, Nat.testBit_log2 (Nat.succ_ne_zero v)]

@[simp] theorem length_ueCode (v : Nat) : (ueCode v).length = 2 * Nat.log2 (v + 1) + 1 := by
  rw [ueCode, List.length_append, List.length_replicate, length_toBits]
  omega

/-- The digits after the one are what `v + 1` exceeds its highest power of two by. -/
theorem two_pow_add_ofBits (v : Nat) :
    2 ^ Nat.log2 (v + 1) + ofBits (toBits (Nat.log2 (v + 1)) (v + 1)) = v + 1 := by
  have hle := two_pow_log2_le v
  have hlt := lt_two_pow_log2 v
  rw [Nat.pow_succ] at hlt
  rw [ofBits_toBits, Nat.mod_eq_sub_mod hle, Nat.mod_eq_of_lt (by omega)]
  omega

/-- Every bit string is zeros only, or has a first one. -/
theorem zeros_or_one (bits : List Bool) :
    bits = List.replicate bits.length false ∨
      ∃ k tail, bits = List.replicate k false ++ true :: tail := by
  induction bits with
  | nil => exact .inl rfl
  | cons bit bits ih =>
    cases bit with
    | true => exact .inr ⟨0, bits, rfl⟩
    | false =>
      rcases ih with hall | ⟨k, tail, hk⟩
      · exact .inl (congrArg (List.cons false) hall)
      · exact .inr ⟨k + 1, tail, congrArg (List.cons false) hk⟩

end Bits
