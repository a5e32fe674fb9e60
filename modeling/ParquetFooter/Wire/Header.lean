import ParquetFooter.Wire.Vlq

/-!
# Headers of fields and lists

A field header gives the type of a field and its id, the id preferably as the step from the id of
the field before it: a step from 1 to 15 shares a byte with the type, any other id is written in
full. Ids are 16 bit integers; the writer takes the difference of two ids with wrap-around, and the
reader refuses a step that leaves the range.

A list header gives the type and the number of the elements. Fewer than 15 share a byte with the
type, a larger number follows it. The reader cuts that number off to 32 bits and refuses a negative
one.
-/

namespace ParquetFooter.Wire

/-- The header of a record field; the id of a stop is 0. -/
structure FieldHeader where
  type : WireType
  id : Int16
deriving DecidableEq, Repr

/-- The header of a list. -/
structure ListHeader where
  type : ElementType
  /-- Their number. -/
  size : Nat
deriving DecidableEq, Repr

namespace FieldHeader

/-- The id that lies a step after another one, if there is such an id. -/
def idAfter? (last : Int16) (step : UInt8) : Option Int16 :=
  let id := last.toInt + step.toNat
  if id ≤ Int16.maxValue.toInt then some (Int16.ofInt id) else none

/-- The bytes of a field header after a field with id `last`. -/
def encode (type : WireType) (id last : Int16) : Bytes :=
  let step := id - last
  if 0 < step ∧ step ≤ 15 then [step.toUInt16.toUInt8 <<< 4 ||| type.code]
  else type.code :: encodeInt id.toInt64

/-- The byte that ends a record. -/
def encodeStop : Bytes := [WireType.stop.code]

/-- The next field header after a field with id `last`. -/
def read (last : Int16) : Reader FieldHeader := do
  let byte ← Reader.byte
  let code := byte &&& 0x0F
  let step := byte >>> 4
  match WireType.ofCode? code with
  | none => Reader.fail (.defect (.fieldType code))
  | some .stop => return ⟨.stop, 0⟩
  | some type =>
    if step = 0 then return ⟨type, ← readInt16⟩
    else
      match idAfter? last step with
      | some id => return ⟨type, id⟩
      | none => Reader.fail (.defect (.fieldId step last))

end FieldHeader

namespace ListHeader

/-- The bytes of the header of a list of `size` elements. -/
def encode (type : ElementType) (size : Nat) : Bytes :=
  if size < 15 then [size.toUInt8 <<< 4 ||| type.code]
  else (0xF0 ||| type.code) :: Vlq.encode size

/-- The announced size of a list whose header starts with a nibble. -/
def readSize (nibble : UInt8) : Reader Int32 := do
  if nibble = 15 then return (← Vlq.read).toUInt32.toInt32
  else return Int32.ofNat nibble.toNat

/-- The next list header. -/
def read : Reader ListHeader := do
  let byte ← Reader.byte
  let code := byte &&& 0x0F
  match ElementType.ofCode? code with
  | none => Reader.fail (.defect (.elementType code))
  | some type =>
    let size ← readSize (byte >>> 4)
    if size < 0 then Reader.fail (.defect (.listSize size))
    else return ⟨type, size.toInt.toNat⟩

end ListHeader

end ParquetFooter.Wire
