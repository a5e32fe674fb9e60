import ParquetFooter.Wire.Fields

/-!
# Stepping over values

`skip` leaves a value of a given type behind without keeping anything of it, so that fields which
are not known can stand in a record. The value of a boolean field lies in its header; boolean
elements of a list are bytes of their own. Values nest at most `skipLevels` levels deep. Maps, and
lists of sets or maps, do not occur in a footer and are refused.
-/

namespace ParquetFooter.Wire

/-- The next truth value outside a field header. Two bytes stand for false, as writers disagree. -/
def readBool : Reader Bool := do
  let byte ← Reader.byte
  if byte = 1 then return true
  else if byte = 0 ∨ byte = 2 then return false
  else Reader.fail (.defect (.truthValue byte))

/-- The next byte string, with its length in front. -/
def readBytes : Reader Bytes := do Reader.take (← Vlq.read).toNat

/-- How many levels of values may lie inside each other. -/
def skipLevels : Nat := 64

/-- Steps over one element of a list; `value` steps over a value of a field type. -/
def skipElement (value : WireType → Reader Unit) (type : ElementType) : Reader Unit :=
  match type with
  | .bool => do let _ ← readBool
  | type =>
    match type.wireType? with
    | some type => value type
    | none => Reader.fail (.defect (.unskippableElement type))

/-- Steps over a value that may nest `levels` deep. -/
def skipWithin : Nat → WireType → Reader Unit
  | 0, type => Reader.fail (.defect (.nestedValue type))
  | levels + 1, type =>
    match type with
    | .booleanTrue | .booleanFalse => pure ()
    | .byte => do let _ ← Reader.byte
    | .int16 | .int32 | .int64 => Vlq.skip
    | .double => do let _ ← Reader.take 8
    | .binary => do let _ ← readBytes
    | .struct => foldFields (fun _ header => skipWithin levels header.type) ()
    | .list | .set => do
      let header ← ListHeader.read
      Reader.skipTimes (skipElement (skipWithin levels) header.type) header.size
    | .stop | .map => Reader.fail (.defect (.unskippable type))

/-- Steps over a value of a type. -/
def skip (type : WireType) : Reader Unit := skipWithin skipLevels type

end ParquetFooter.Wire
