import Mathlib.Algebra.Order.Ring.Nat
import Mathlib.Data.List.Basic

/-!
# Fixed-width images of naturals

A number of `w` bytes is stored either least significant byte first (`toLE`, the memory of a
little-endian host) or most significant byte first (`toBE`, network order). Both images drop
what does not fit in `w` bytes, and reading an image back gives the number modulo
`256 ^ w`. Reversing a memory image is the byte swap of the number (`toLE_ofLE_reverse`).
-/

namespace Endian

/-- The `w` bytes of `n`, least significant first. -/
def toLE : Nat → Nat → List UInt8
  | 0, _ => []
  | w + 1, n => UInt8.ofNat n :: toLE w (n / 256)

/-- The number whose bytes are given least significant first. -/
def ofLE : List UInt8 → Nat
  | [] => 0
  | b :: bs => b.toNat + 256 * ofLE bs

/-- The `w` bytes of `n`, most significant first. -/
def toBE (w n : Nat) : List UInt8 := (toLE w n).reverse

/-- The number whose bytes are given most significant first. -/
def ofBE (bs : List UInt8) : Nat := ofLE bs.reverse

@[simp] theorem length_toLE (w n : Nat) : (toLE w n).length = w := by
  induction w generalizing n with
  | zero => rfl
  | succ w ih => simp [toLE, ih]

@[simp] theorem length_toBE (w n : Nat) : (toBE w n).length = w := by
  simp [toBE]

theorem ofLE_lt (bs : List UInt8) : ofLE bs < 256 ^ bs.length := by
  induction bs with
  | nil => simp [ofLE]
  | cons b bs ih =>
    have hb := b.toNat_lt
    rw [ofLE, List.length_cons, Nat.pow_succ]
    omega

theorem ofBE_lt (bs : List UInt8) : ofBE bs < 256 ^ bs.length := by
  simpa [ofBE] using ofLE_lt bs.reverse

theorem ofLE_toLE {w n : Nat} (h : n < 256 ^ w) : ofLE (toLE w n) = n := by
  induction w generalizing n with
  | zero =>
    have hn : n = 0 := by simpa using h
    simp [toLE, ofLE, hn]
  | succ w ih =>
    have hdiv : n / 256 < 256 ^ w := by
      rw [Nat.pow_succ] at h
      exact Nat.div_lt_of_lt_mul (by omega)
    rw [toLE, ofLE, ih hdiv, UInt8.toNat_ofNat']
    omega

theorem toLE_ofLE (bs : List UInt8) : toLE bs.length (ofLE bs) = bs := by
  induction bs with
  | nil => rfl
  | cons b bs ih =>
    have hb := b.toNat_lt
    have hdiv : (b.toNat + 256 * ofLE bs) / 256 = ofLE bs := by omega
    have hlow : UInt8.ofNat (b.toNat + 256 * ofLE bs) = b := by
      rw [← UInt8.toNat_inj, UInt8.toNat_ofNat']
      omega
    rw [List.length_cons, toLE, ofLE, hdiv, ih, hlow]

theorem ofBE_toBE {w n : Nat} (h : n < 256 ^ w) : ofBE (toBE w n) = n := by
  rw [ofBE, toBE, List.reverse_reverse, ofLE_toLE h]

theorem toBE_ofBE (bs : List UInt8) : toBE bs.length (ofBE bs) = bs := by
  have h := toLE_ofLE bs.reverse
  rw [List.length_reverse] at h
  rw [toBE, ofBE, h, List.reverse_reverse]

theorem toLE_mod (w n : Nat) : toLE w (n % 256 ^ w) = toLE w n := by
  induction w generalizing n with
  | zero => rfl
  | succ w ih =>
    have hlow : n % 256 ^ (w + 1) % 256 = n % 256 :=
      Nat.mod_mod_of_dvd n ⟨256 ^ w, by rw [Nat.pow_succ, Nat.mul_comm]⟩
    have hhigh : n % 256 ^ (w + 1) / 256 = n / 256 % 256 ^ w := by
      rw [Nat.pow_succ, Nat.mul_comm, Nat.mod_mul_right_div_self]
    have hbyte : UInt8.ofNat (n % 256 ^ (w + 1)) = UInt8.ofNat n := by
      rw [← UInt8.toNat_inj, UInt8.toNat_ofNat', UInt8.toNat_ofNat']
      exact hlow
    rw [toLE, toLE, hbyte, hhigh, ih]

theorem toBE_mod (w n : Nat) : toBE w (n % 256 ^ w) = toBE w n := by
  rw [toBE, toBE, toLE_mod]

/-- Storing the number whose memory image is the reversed image of `n` stores `n` in the
opposite byte order. -/
theorem toLE_ofLE_reverse (w n : Nat) : toLE w (ofLE (toLE w n).reverse) = toBE w n := by
  have h := toLE_ofLE (toLE w n).reverse
  rwa [List.length_reverse, length_toLE] at h

end Endian
