import ParquetFooter.Wire.Layout

/-!
# The statistics record

What a footer keeps about the values of a column chunk. Every field may be missing, so a record is
its own draft. There are two pairs of bounds: older writers fill `max` and `min`, newer ones
`maxValue` and `minValue`.
-/

namespace ParquetFooter.Record

open Wire

/-- Statistics of the values of a column chunk. -/
structure Statistics where
  /-- The upper bound, plainly encoded. -/
  max : Option Bytes
  /-- The lower bound, plainly encoded. -/
  min : Option Bytes
  nullCount : Option Int64
  /-- The number of distinct values. -/
  distinctCount : Option Int64
  /-- The upper bound in the order of the column. -/
  maxValue : Option Bytes
  /-- The lower bound in the order of the column. -/
  minValue : Option Bytes
deriving DecidableEq, Repr

namespace Statistics

/-- The fields of a statistics record. -/
def layout : Layout Statistics where
  Draft := Statistics
  blank := ⟨none, none, none, none, none, none⟩
  fields := [
    ⟨1, Bytes, .bytes, max, fun value draft => { draft with max := some value }⟩,
    ⟨2, Bytes, .bytes, min, fun value draft => { draft with min := some value }⟩,
    ⟨3, Int64, .int64, nullCount, fun value draft => { draft with nullCount := some value }⟩,
    ⟨4, Int64, .int64, distinctCount,
      fun value draft => { draft with distinctCount := some value }⟩,
    ⟨5, Bytes, .bytes, maxValue, fun value draft => { draft with maxValue := some value }⟩,
    ⟨6, Bytes, .bytes, minValue, fun value draft => { draft with minValue := some value }⟩]
  draft record := record
  finish draft := .ok draft

/-- How statistics are read and written. -/
def codec : Codec Statistics := layout.codec

end Statistics

end ParquetFooter.Record
