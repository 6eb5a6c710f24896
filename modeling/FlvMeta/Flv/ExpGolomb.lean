import FlvMeta.Flv.BitReader

/-!
# Reading Exp-Golomb codes

What `exp_golomb_ue` returns is a function of the bits that are left: the leading zeros say how
many bits follow the first one. At the code word of a value below `2 ^ 31 - 1` it returns that
value, from any position, and stands right after the code word (`expGolomb_codes`).
-/

namespace FlvMeta

open Bits

namespace BitBuffer

/-! ## Leading zeros -/

/-- The zeros are counted in 8 bits, up to the first one. -/
theorem Valid.significantBits_one {bb : BitBuffer} (h : bb.Valid) {k fuel count : Nat}
    {tail : List Bool} (hrest : bb.rest = List.replicate k false ++ true :: tail)
    (hfuel : k < fuel) (hcount : count < 2 ^ 8) :
    significantBits fuel count bb = (some ((count + k) % 2 ^ 8), bb.skipBits (k + 1)) := by
  induction k generalizing fuel count bb with
  | zero =>
    obtain ⟨fuel, rfl⟩ := Nat.exists_eq_succ_of_ne_zero (Nat.ne_of_gt hfuel)
    rw [significantBits, h.getBit_cons hrest, Nat.add_zero count, Nat.mod_eq_of_lt hcount]
    rfl
  | succ k ih =>
    obtain ⟨fuel, rfl⟩ := Nat.exists_eq_succ_of_ne_zero (Nat.ne_of_gt (Nat.zero_lt_of_lt hfuel))
    have hcons : bb.rest = false :: (List.replicate k false ++ true :: tail) := hrest
    have hnext : (bb.skipBits 1).rest = List.replicate k false ++ true :: tail := by
      rw [rest_skipBits, hcons, List.drop_succ_cons, List.drop_zero]
    rw [significantBits, h.getBit_cons hcons]
    dsimp only
    rw [Bool.toNat_false, if_pos rfl,
      ih (valid_skipBits 1 bb) hnext (by omega) (Nat.mod_lt _ (by decide)), skipBits_skipBits,
      Nat.mod_add_mod, Nat.add_right_comm count 1 k, Nat.add_comm 1]
    rfl

/-- Without a one the zeros are read to the end. -/
theorem Valid.significantBits_zeros {bb : BitBuffer} (h : bb.Valid) {fuel count : Nat}
    (hrest : bb.rest = List.replicate bb.rest.length false) (hfuel : bb.rest.length < fuel) :
    significantBits fuel count bb = (none, bb.skipBits bb.rest.length) := by
  induction hn : bb.rest.length generalizing fuel count bb with
  | zero =>
    obtain ⟨fuel, rfl⟩ := Nat.exists_eq_succ_of_ne_zero (Nat.ne_of_gt (Nat.zero_lt_of_lt hfuel))
    rw [significantBits, h.getBit_nil (List.length_eq_zero_iff.mp hn), h.skipBits_zero]
  | succ n ih =>
    obtain ⟨fuel, rfl⟩ := Nat.exists_eq_succ_of_ne_zero (Nat.ne_of_gt (Nat.zero_lt_of_lt hfuel))
    have hcons : bb.rest = false :: List.replicate n false := by
      rw [hrest, hn, List.replicate_succ]
    have hnext : (bb.skipBits 1).rest = List.replicate n false := by
      rw [rest_skipBits, hcons, List.drop_succ_cons, List.drop_zero]
    have hlen : (bb.skipBits 1).rest.length = n := by rw [hnext, List.length_replicate]
    rw [significantBits, h.getBit_cons hcons]
    dsimp only
    rw [Bool.toNat_false, if_pos rfl, ih (valid_skipBits 1 bb) (by rw [hlen, hnext])
      (by omega) hlen,
      skipBits_skipBits, Nat.add_comm 1]

theorem rest_length_lt (bb : BitBuffer) : bb.rest.length < 8 * bb.bytes.length + 1 := by
  rw [length_rest]
  omega

/-! ## Codes -/

/-- What follows the leading zeros of a code is one bit and as many more as the counter of zeros
says, up to the 32 that `get_bits` reads. -/
def digits (k : Nat) : Nat := min (k % 2 ^ 8) 32

/-- The value of a code word with `k` leading zeros. -/
def ueValue (k : Nat) (tail : List Bool) : Nat :=
  (2 ^ (k % 2 ^ 8 % 32) + ofBits (tail.take (digits k)) + (2 ^ 32 - 1)) % 2 ^ 32

theorem Valid.expGolombUe_one {bb : BitBuffer} (h : bb.Valid) {k : Nat} {tail : List Bool}
    (hrest : bb.rest = List.replicate k false ++ true :: tail) :
    bb.expGolombUe =
      if digits k ≤ tail.length then (ueValue k tail, bb.skipBits (k + 1 + digits k))
      else (0, bb.skipBits bb.rest.length) := by
  have hk : k < 8 * bb.bytes.length + 1 := by
    have hlt := bb.rest_length_lt
    rw [hrest, List.length_append, List.length_replicate] at hlt
    omega
  have htail : (bb.skipBits (k + 1)).rest = tail := by
    rw [rest_skipBits, hrest, List.drop_append, List.drop_of_length_le (by simp),
      List.length_replicate, Nat.add_sub_cancel_left, List.drop_succ_cons, List.drop_zero,
      List.nil_append]
  have hlen : k + 1 + tail.length = bb.rest.length := by
    rw [hrest, List.length_append, List.length_replicate, List.length_cons]
    omega
  rw [expGolombUe, h.significantBits_one hrest hk (by decide), Nat.zero_add]
  dsimp only
  rw [(valid_skipBits (k + 1) bb).getBits_eq, htail, skipBits_skipBits, skipBits_skipBits, hlen,
    show min (k % 2 ^ 8) 32 = digits k from rfl]
  by_cases hfit : digits k ≤ tail.length
  · rw [if_pos hfit, if_pos hfit]
    rfl
  · rw [if_neg hfit, if_neg hfit]

theorem Valid.expGolombUe_zeros {bb : BitBuffer} (h : bb.Valid)
    (hrest : bb.rest = List.replicate bb.rest.length false) :
    bb.expGolombUe = (0, bb.skipBits bb.rest.length) := by
  rw [expGolombUe, h.significantBits_zeros hrest bb.rest_length_lt]

/-- At a code word, the value that it encodes. -/
theorem Valid.expGolombUe_code {bb : BitBuffer} (h : bb.Valid) {v : Nat} {tail : List Bool}
    (hv : v + 1 < 2 ^ 32) (hrest : bb.rest = ueCode v ++ tail) :
    bb.expGolombUe = (v, bb.skipBits (ueCode v).length) := by
  have hk : Nat.log2 (v + 1) < 32 := (Nat.log2_lt (Nat.succ_ne_zero v)).mpr hv
  have hdigits : digits (Nat.log2 (v + 1)) = Nat.log2 (v + 1) := by
    rw [digits, Nat.mod_eq_of_lt (by omega), Nat.min_eq_left (by omega)]
  have hvalue : ueValue (Nat.log2 (v + 1)) (toBits (Nat.log2 (v + 1)) (v + 1) ++ tail) = v := by
    have hsum := two_pow_add_ofBits v
    rw [ueValue, hdigits, List.take_left' (length_toBits _ _), Nat.mod_eq_of_lt (a := Nat.log2 _)
      (by omega), Nat.mod_eq_of_lt (a := Nat.log2 _) (by omega), hsum]
    omega
  rw [ueCode_eq, List.append_assoc, List.cons_append] at hrest
  have hlen : Nat.log2 (v + 1) + 1 + Nat.log2 (v + 1) = 2 * Nat.log2 (v + 1) + 1 := by omega
  rw [h.expGolombUe_one hrest, hdigits, if_pos (by simp), hvalue, length_ueCode, hlen]

/-- The signed value is read off the index. -/
theorem Valid.expGolombSe_code {bb : BitBuffer} (h : bb.Valid) {s : Int} {tail : List Bool}
    (hs : seIndex s < 2 ^ 31) (hrest : bb.rest = seCode s ++ tail) :
    bb.expGolombSe = (s, bb.skipBits (seCode s).length) := by
  have hret : (if seIndex s < 2 ^ 31 then (seIndex s : Int) else (seIndex s : Int) - 2 ^ 32) =
      seIndex s := if_pos hs
  rw [expGolombSe, h.expGolombUe_code (by omega) hrest]
  dsimp only
  rw [hret, seCode]
  by_cases hpos : 0 < s
  · have hindex : (seIndex s : Int) = 2 * s - 1 := by
      rw [seIndex, if_pos hpos]
      omega
    rw [hindex, if_neg (by omega)]
    congr 1
    omega
  · have hindex : (seIndex s : Int) = -2 * s := by
      rw [seIndex, if_neg hpos]
      omega
    rw [hindex, if_pos (by omega)]
    congr 1
    omega

/-- From any position, whatever follows: a code word gives its value back and is passed over. -/
theorem expGolomb_codes (bb : BitBuffer) (h : bb.Valid) (tail : List Bool) :
    (∀ v < 2 ^ 31 - 1, bb.rest = ueCode v ++ tail →
      bb.expGolombUe.1 = v ∧
        bb.expGolombUe.2.position = bb.position + (2 * Nat.log2 (v + 1) + 1) ∧
        bb.expGolombUe.2.rest = tail) ∧
    (∀ s : Int, |s| < 2 ^ 30 → bb.rest = seCode s ++ tail →
      bb.expGolombSe.1 = s ∧
        bb.expGolombSe.2.position = bb.position + (seCode s).length ∧
        bb.expGolombSe.2.rest = tail) := by
  constructor
  · intro v hv hrest
    rw [h.expGolombUe_code (by omega) hrest, position_skipBits, length_ueCode, rest_skipBits, hrest]
    exact ⟨rfl, rfl, List.drop_left' (length_ueCode v)⟩
  · intro s hs hrest
    have hbounds := abs_lt.mp hs
    have hindex : seIndex s < 2 ^ 31 := by
      rw [seIndex]
      split
      · omega
      · omega
    rw [h.expGolombSe_code hindex hrest, position_skipBits, rest_skipBits, hrest]
    exact ⟨rfl, rfl, List.drop_left⟩

/-- Three bits into two bytes, the word that codes 4, or -2 if it is read as a signed one. -/
theorem expGolomb_codes_offset :
    let bb : BitBuffer := ⟨[0xe5, 0x55], 0, 3⟩
    bb.expGolombUe.1 = 4 ∧ bb.expGolombSe.1 = -2 := by
  intro bb
  have hvalid : bb.Valid := show 3 < 8 from by decide
  have hrest : bb.rest = ueCode 4 ++ ofBytes [0x55] := by decide
  have hsigned : bb.rest = seCode (-2) ++ ofBytes [0x55] := by decide
  have hcodes := expGolomb_codes bb hvalid (ofBytes [0x55])
  exact ⟨(hcodes.1 4 (by decide) hrest).1,
    (hcodes.2 (-2) (abs_lt.mpr ⟨by decide, by decide⟩) hsigned).1⟩

end BitBuffer

end FlvMeta
