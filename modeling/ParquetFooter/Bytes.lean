/-!
# Byte strings

A footer is a list of bytes. `littleEndian` writes a 32 bit word with its lowest byte first, and
`ofLittleEndian` reads one back; both are what the trailer of a file uses for the length of the
footer in front of it.
-/

namespace ParquetFooter

/-- A byte string, first byte first. -/
abbrev Bytes := List UInt8

/-- The four bytes of a word, lowest byte first. -/
def littleEndian (word : UInt32) : Bytes :=
  [word.toUInt8, (word >>> 8).toUInt8, (word >>> 16).toUInt8, (word >>> 24).toUInt8]

/-- The number whose bytes, lowest byte first, are given. -/
def ofLittleEndian : Bytes → Nat
  | [] => 0
  | low :: high => low.toNat + 256 * ofLittleEndian high

/-- A word is read from its own bytes. -/
theorem ofLittleEndian_littleEndian (word : UInt32) :
    ofLittleEndian (littleEndian word) = word.toNat := by
  have bound := word.toNat_lt
  simp only [littleEndian, ofLittleEndian, UInt32.toNat_toUInt8, UInt32.toNat_shiftRight,
    UInt32.toNat_ofNat, Nat.shiftRight_eq_div_pow, Nat.reducePow, Nat.reduceMod]
  omega

/-- The decimal text of a byte string: the bytes in brackets, separated by a comma and a blank. -/
def Bytes.decimalText (bytes : Bytes) : String :=
  "[" ++ ", ".intercalate (bytes.map fun byte => toString byte.toNat) ++ "]"

end ParquetFooter
