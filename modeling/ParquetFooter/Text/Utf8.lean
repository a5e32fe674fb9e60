import ParquetFooter.Bytes

/-!
# Text as UTF-8

`encode` gives the bytes of a text and `decode` the text of some bytes. When bytes are no text,
`faultOf?` finds the first sequence that is wrong: it walks over the bytes with the ranges that
the next ones may lie in. A sequence that breaks off at the end of the bytes is told apart from one
that goes wrong before it, and of the latter the number of bytes that were still right is kept.
-/

namespace ParquetFooter.Utf8

/-- Why bytes are not UTF-8. -/
inductive Fault where
  /-- A sequence starts at `index` whose first `length` bytes start a valid sequence, or are a
  single byte that starts none, and cannot be continued. -/
  | invalid (length index : Nat)
  /-- The bytes end inside the sequence that starts at `index`. -/
  | incomplete (index : Nat)
deriving DecidableEq, Repr

/-- The wording of a fault. -/
def Fault.message : Fault → String
  | .invalid length index => s!"invalid utf-8 sequence of {length} bytes from index {index}"
  | .incomplete index => s!"incomplete utf-8 byte sequence from index {index}"

/-- The ranges of the bytes that follow a first byte, or none when no sequence starts with it.
Overlong forms, surrogates and values past the last code point are excluded by the range of the
second byte. -/
def followers? (first : UInt8) : Option (List (UInt8 × UInt8)) :=
  if first < 0x80 then some []
  else if first < 0xC2 then none
  else if first < 0xE0 then some [(0x80, 0xBF)]
  else if first = 0xE0 then some [(0xA0, 0xBF), (0x80, 0xBF)]
  else if first = 0xED then some [(0x80, 0x9F), (0x80, 0xBF)]
  else if first < 0xF0 then some [(0x80, 0xBF), (0x80, 0xBF)]
  else if first = 0xF0 then some [(0x90, 0xBF), (0x80, 0xBF), (0x80, 0xBF)]
  else if first < 0xF4 then some [(0x80, 0xBF), (0x80, 0xBF), (0x80, 0xBF)]
  else if first = 0xF4 then some [(0x80, 0x8F), (0x80, 0xBF), (0x80, 0xBF)]
  else none

/-- Walks over bytes inside the sequence that starts at `start`, of which `matched` bytes were
read and the bytes to come must lie in the `owed` ranges. -/
def scan (start matched : Nat) (owed : List (UInt8 × UInt8)) : Bytes → Option Fault
  | [] => if owed.isEmpty then none else some (.incomplete start)
  | byte :: rest =>
    match owed with
    | (low, high) :: owed =>
      if low ≤ byte ∧ byte ≤ high then scan start (matched + 1) owed rest
      else some (.invalid matched start)
    | [] =>
      match followers? byte with
      | some owed => scan (start + matched) 1 owed rest
      | none => some (.invalid 1 (start + matched))

/-- The first fault of some bytes, or none when they are UTF-8. -/
def faultOf? (bytes : Bytes) : Option Fault := scan 0 0 [] bytes

/-- The bytes of a text. -/
def encode (text : String) : Bytes := text.toByteArray.data.toList

/-- The text of some bytes, or their first fault. -/
def decode (bytes : Bytes) : Except Fault String :=
  let array : ByteArray := ⟨bytes.toArray⟩
  if valid : array.IsValidUTF8 then .ok (String.fromUTF8 array valid)
  else .error ((faultOf? bytes).getD (.incomplete bytes.length))

/-- The bytes of a text are read as that text. -/
theorem decode_encode (text : String) : decode (encode text) = .ok text := by
  have array : (⟨text.toByteArray.data.toList.toArray⟩ : ByteArray) = text.toByteArray := by simp
  simp only [decode, encode, array]
  rw [dif_pos text.isValidUTF8]
  rfl

end ParquetFooter.Utf8
