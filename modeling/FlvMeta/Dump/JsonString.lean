import FlvMeta.Base.JsonString
import FlvMeta.Types

/-!
# Printing JSON strings

`jsonPrintString` prints a literal for every ASCII string, but a control character without an escape
letter of its own is printed by its decimal digits, which the grammar reads as hexadecimal ones. So
the literal stands for the string exactly if no such character is above 9
(`jsonPrintString_literal_iff`).
-/

namespace FlvMeta

open Json

/-- `iscntrl` in the C locale. -/
def isCntrl (c : UInt8) : Bool := c < 0x20 || c == 0x7f

/-- The decimal digit of a number below 10. -/
def decimalDigit (n : Nat) : UInt8 := UInt8.ofNat (0x30 + n)

/-- `%.4u` of a `char`: four decimal digits. -/
def decimal4 (n : Nat) : Bytes :=
  [decimalDigit (n / 1000 % 10), decimalDigit (n / 100 % 10), decimalDigit (n / 10 % 10),
    decimalDigit (n % 10)]

/-- A turn of the loop of `json_print_string`. -/
def jsonPrintChar (c : UInt8) : Bytes :=
  if c = 0x22 then [0x5c, 0x22]
  else if c = 0x5c then [0x5c, 0x5c]
  else if c = 0x2f then [0x5c, 0x2f]
  else if c = 0x08 then [0x5c, 0x62]
  else if c = 0x0c then [0x5c, 0x66]
  else if c = 0x0a then [0x5c, 0x6e]
  else if c = 0x0d then [0x5c, 0x72]
  else if c = 0x09 then [0x5c, 0x74]
  else if isCntrl c then 0x5c :: 0x75 :: decimal4 c.toNat
  else [c]

/-- `json_print_string`. -/
def jsonPrintString (str : Bytes) : Bytes := 0x22 :: (str.flatMap jsonPrintChar ++ [0x22])

/-! ## What is read back -/

/-- A control character that is printed by its digits. -/
def PrintedByDigits (c : UInt8) : Prop :=
  isCntrl c ∧ c ≠ 0x08 ∧ c ≠ 0x0c ∧ c ≠ 0x0a ∧ c ≠ 0x0d ∧ c ≠ 0x09

instance (c : UInt8) : Decidable (PrintedByDigits c) := inferInstanceAs (Decidable (_ ∧ _))

/-- The decimal digits of a number, read as hexadecimal ones. -/
def digitsAsHex (n : Nat) : Nat :=
  ((n / 1000 % 10 * 16 + n / 100 % 10) * 16 + n / 10 % 10) * 16 + n % 10

theorem hexCode_decimal (n : Nat) :
    hexCode (decimalDigit (n / 1000 % 10)) (decimalDigit (n / 100 % 10))
      (decimalDigit (n / 10 % 10)) (decimalDigit (n % 10)) = some (digitsAsHex n) := by
  simp only [hexCode, decimalDigit, hexValue_digit (Nat.mod_lt _ (Nat.succ_pos 9)), digitsAsHex,
    Option.bind_eq_bind, Option.bind_some, Option.pure_def]

/-- Only the numbers below 10 have the same digits in both. -/
theorem digitsAsHex_eq_iff {n : Nat} (h : n < 10000) : digitsAsHex n = n ↔ n < 10 := by
  have hsum : n = n / 1000 % 10 * 1000 + n / 100 % 10 * 100 + n / 10 % 10 * 10 + n % 10 := by omega
  have hlast : n % 10 < 10 := Nat.mod_lt _ (by decide)
  unfold digitsAsHex
  generalize n / 1000 % 10 = a at *
  generalize n / 100 % 10 = b at *
  generalize n / 10 % 10 = c at *
  generalize n % 10 = d at *
  omega

/-- The code unit that is read back for a character. -/
def unitRead (c : UInt8) : Nat := if PrintedByDigits c then digitsAsHex c.toNat else c.toNat

theorem characters_jsonPrintChar {c : UInt8} (hascii : c < 0x80) :
    Characters (jsonPrintChar c) [unitRead c] := by
  unfold jsonPrintChar
  split
  · next h => subst h; exact .escape rfl .nil
  split
  · next h => subst h; exact .escape rfl .nil
  split
  · next h => subst h; exact .escape rfl .nil
  split
  · next h => subst h; exact .escape rfl .nil
  split
  · next h => subst h; exact .escape rfl .nil
  split
  · next h => subst h; exact .escape rfl .nil
  split
  · next h => subst h; exact .escape rfl .nil
  split
  · next h => subst h; exact .escape rfl .nil
  split
  · next h =>
    have hprinted : PrintedByDigits c :=
      ⟨h, by assumption, by assumption, by assumption, by assumption, by assumption⟩
    rw [unitRead, if_pos hprinted]
    exact .unicode (hexCode_decimal c.toNat) .nil
  · next h =>
    rw [unitRead, if_neg (fun hp : PrintedByDigits c => h hp.1)]
    simp only [isCntrl, Bool.or_eq_true, decide_eq_true_eq, beq_iff_eq, not_or] at h
    exact .plain (UInt8.not_lt.mp h.1) hascii (by assumption) (by assumption) .nil

/-- Whatever the string, one literal is printed. -/
theorem stringLiteral_jsonPrintString {str : Bytes} (hascii : ∀ c ∈ str, c < 0x80) :
    StringLiteral (jsonPrintString str) (str.map unitRead) := by
  refine ⟨str.flatMap jsonPrintChar, rfl, ?_⟩
  induction str with
  | nil => exact .nil
  | cons c str ih =>
    rw [List.flatMap_cons]
    exact (characters_jsonPrintChar (hascii c List.mem_cons_self)).append
      (ih fun c hc => hascii c (List.mem_cons_of_mem _ hc))

/-- A character is read back unless it is printed by more than one digit. -/
theorem unitRead_eq_iff {c : UInt8} (hascii : c < 0x80) :
    unitRead c = c.toNat ↔ ¬ (PrintedByDigits c ∧ 10 ≤ c.toNat) := by
  have hlt : c.toNat < 10000 := Nat.lt_trans (UInt8.lt_iff_toNat_lt.mp hascii) (by decide)
  unfold unitRead
  split
  · next h =>
    rw [digitsAsHex_eq_iff hlt]
    exact ⟨fun hlow hp => Nat.not_lt_of_le hp.2 hlow, fun hp => Nat.lt_of_not_le fun hle =>
      hp ⟨h, hle⟩⟩
  · next h => exact iff_of_true rfl fun hp => h hp.1

/-- For every ASCII string what is printed is a literal, and it stands for the string if and only if
the string has no control character from 10 on without an escape letter of its own. -/
theorem jsonPrintString_literal_iff (str : Bytes) (hascii : ∀ c ∈ str, c < 0x80) :
    (∃ units, StringLiteral (jsonPrintString str) units) ∧
      (StringLiteral (jsonPrintString str) (str.map UInt8.toNat) ↔
        ∀ c ∈ str, ¬ (PrintedByDigits c ∧ 10 ≤ c.toNat)) := by
  have hprinted := stringLiteral_jsonPrintString hascii
  have hsame : StringLiteral (jsonPrintString str) (str.map UInt8.toNat) ↔
      str.map unitRead = str.map UInt8.toNat := by
    constructor
    · intro h
      exact hprinted.unique h
    · intro h
      rwa [h] at hprinted
  refine ⟨⟨_, hprinted⟩, ?_⟩
  rw [hsame, List.map_inj_left]
  exact forall₂_congr fun c hc => unitRead_eq_iff (hascii c hc)

/-- A vertical tabulator is printed as `\u0011`. -/
theorem jsonPrintString_literal_iff_tabulator :
    ¬ StringLiteral (jsonPrintString [0x0b]) ([0x0b].map UInt8.toNat) := fun h =>
  ((jsonPrintString_literal_iff [0x0b] (List.forall_mem_singleton.mpr (by decide))).2.mp h) 0x0b
    (by decide) (by decide)

/-- It is read back as another control character. -/
theorem not_jsonPrintString_literal :
    ¬ ∀ str : Bytes, (∀ c ∈ str, c < 0x80) →
      StringLiteral (jsonPrintString str) (str.map UInt8.toNat) := by
  intro h
  have hascii : ∀ c ∈ ([0x0b] : Bytes), c < 0x80 := List.forall_mem_singleton.mpr (by decide)
  have hliteral := h [0x0b] hascii
  have hunits := (stringLiteral_jsonPrintString hascii).unique hliteral
  exact absurd hunits (by decide)

end FlvMeta
