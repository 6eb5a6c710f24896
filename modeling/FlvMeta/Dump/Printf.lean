import FlvMeta.Dump.Json
import FlvMeta.Dump.Xml

/-!
# Printing numbers

The conversions that the dumps use, and what they ask the C library for.
-/

namespace FlvMeta

/-- What the dumps in all formats use of the C library. -/
structure DumpLibrary (N : Type) extends JsonLibrary N, XmlLibrary N

/-- The decimal digits of a number. -/
def decimal (value : ℕ) : Bytes := ascii (String.ofList (Nat.toDigits 10 value))

/-- `%u`, of an `unsigned int`. -/
def printUnsigned (value : ℕ) : Bytes := decimal (value % 2 ^ 32)

/-- `%i`, of an `int`. -/
def printInteger (value : ℤ) : Bytes :=
  if value.bmod (2 ^ 32) < 0 then 0x2d :: decimal (value.bmod (2 ^ 32)).natAbs
  else decimal (value.bmod (2 ^ 32)).natAbs

/-- `%X`. -/
def printHexadecimal (value : ℕ) : Bytes :=
  ascii (String.ofList ((Nat.toDigits 16 value).map Char.toUpper))

/-- What is printed of integers are digits and minus signs. -/
theorem mem_decimal {value : ℕ} : ∀ c ∈ decimal value, 0x2d ≤ c ∧ c ≤ 0x39 := by
  intro c hc
  rw [decimal, ascii, String.toList_ofList] at hc
  obtain ⟨d, hd, rfl⟩ := List.mem_map.mp hc
  obtain ⟨hlow, hhigh⟩ := Char.isDigit_iff_toNat.mp
    (Nat.isDigit_of_mem_toDigits (by decide) (by decide) hd)
  have hzero : '0'.toNat = 48 := rfl
  have hnine : '9'.toNat = 57 := rfl
  rw [UInt8.le_iff_toNat_le, UInt8.le_iff_toNat_le, UInt8.toNat_ofNat']
  simp only [UInt8.toNat_ofNat]
  omega

theorem mem_printInteger {value : ℤ} : ∀ c ∈ printInteger value, 0x2d ≤ c ∧ c ≤ 0x39 := by
  unfold printInteger
  split
  · exact List.forall_mem_cons.mpr ⟨by decide, mem_decimal⟩
  · exact mem_decimal

end FlvMeta
