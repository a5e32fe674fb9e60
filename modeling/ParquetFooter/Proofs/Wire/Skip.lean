import ParquetFooter.Proofs.Wire.Fields
import ParquetFooter.Wire.Skip

/-! # Stepping over values streams

What is stepped over does not depend on what follows it, however deep values nest, and the same
holds for truth values and byte strings.
-/

namespace ParquetFooter.Wire

/-- A truth value streams. -/
theorem readBool_streams : readBool.Streams := by
  refine Reader.Streams.byte.bind fun byte => ?_
  split
  next => exact .pure _
  next =>
    split
    next => exact .pure _
    next => exact .fail trivial

theorem readBytes_streams : readBytes.Streams :=
  Vlq.read_streams.bind fun word => Reader.Streams.take word.toNat

/-- Stepping over an element streams when stepping over values does. -/
theorem skipElement_streams {value : WireType → Reader Unit} (each : ∀ type, (value type).Streams)
    (type : ElementType) : (skipElement value type).Streams := by
  unfold skipElement
  split
  next => exact readBool_streams.map fun _ => ()
  next =>
    split
    next wire _ => exact each wire
    next => exact .fail trivial

/-- The induction is on the levels that are left; every type steps over parts one level down. -/
theorem skipWithin_streams (levels : Nat) (type : WireType) : (skipWithin levels type).Streams := by
  induction levels generalizing type with
  | zero => exact .fail trivial
  | succ levels ih =>
      have listed : Reader.Streams (do
          let header ← ListHeader.read
          Reader.skipTimes (skipElement (skipWithin levels) header.type) header.size) :=
        ListHeader.read_streams.bind fun header =>
          (skipElement_streams ih header.type).skipTimes header.size
      cases type with
      | booleanTrue | booleanFalse => exact .pure _
      | byte => exact Reader.Streams.byte.map fun _ => ()
      | int16 | int32 | int64 => exact Vlq.skip_streams
      | double => exact (Reader.Streams.take 8).map fun _ => ()
      | binary => exact readBytes_streams.map fun _ => ()
      | struct => exact foldFields_streams (fun _ header => ih header.type) ()
      | list | set => exact listed
      | stop | map => exact .fail trivial

theorem skip_streams (type : WireType) : (skip type).Streams := skipWithin_streams skipLevels type

end ParquetFooter.Wire
