import ParquetFooter.Reader

/-!
# Integers of variable length

`Vlq.encode` writes a natural number in groups of seven bits, the lowest first; every byte but the
last has its high bit set. `Vlq.read` gathers the groups into a 64 bit word. It takes any number of
groups: the group at bit position `p` is shifted by `p` modulo 64, and bits shifted past the word
are lost.

Signed integers are folded onto the natural numbers first, small magnitudes onto small numbers
(`zigzag`), so that they are short whatever their sign. Narrower integers are read as 64 bits and
cut off.
-/

namespace ParquetFooter.Wire

namespace Vlq

/-- The bytes of a number. -/
def encode (number : Nat) : Bytes :=
  if number < 128 then [number.toUInt8]
  else (number % 128 + 128).toUInt8 :: encode (number / 128)

/-- Reads the groups from bit position `shift` on into a word that holds the ones before. -/
def gather (shift word : UInt64) : Reader UInt64
  | [] => .error .endOfInput
  | byte :: rest =>
    let word := word ||| (byte &&& 0x7F).toUInt64 <<< shift
    if byte &&& 0x80 = 0 then .ok (word, rest) else gather (shift + 7) word rest

/-- The next number. -/
def read : Reader UInt64 := gather 0 0

/-- Steps over the next number. -/
def skip : Reader Unit
  | [] => .error .endOfInput
  | byte :: rest => if byte &&& 0x80 = 0 then .ok ((), rest) else skip rest

end Vlq

/-- Folds the integers onto the words: 0, -1, 1, -2, 2 and so on become 0, 1, 2, 3, 4. -/
def zigzag (value : Int64) : UInt64 :=
  let sign : Int64 := if value < 0 then 1 else 0
  (((value ^^^ -sign) <<< 1) + sign).toUInt64

/-- The integer that a word stands for. -/
def unzigzag (word : UInt64) : Int64 := (word >>> 1).toInt64 ^^^ -(word &&& 1).toInt64

/-- The bytes of a signed integer. -/
def encodeInt (value : Int64) : Bytes := Vlq.encode (zigzag value).toNat

/-- The next 64 bit integer. -/
def readInt64 : Reader Int64 := do return unzigzag (← Vlq.read)

/-- The next integer, cut off to 32 bits. -/
def readInt32 : Reader Int32 := do return (← readInt64).toInt32

/-- The next integer, cut off to 16 bits. -/
def readInt16 : Reader Int16 := do return (← readInt64).toInt16

end ParquetFooter.Wire
