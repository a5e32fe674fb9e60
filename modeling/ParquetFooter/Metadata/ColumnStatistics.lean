import ParquetFooter.Record.Statistics

/-!
# Column statistics

Statistics as a reader and a writer of columns use them: counts that are always there, and bounds.
Of the two pairs of bounds that a record may hold, the older one is preferred, bound by bound; it is
also the one that is written.
-/

namespace ParquetFooter

/-- Statistics of the values of a column chunk. -/
structure ColumnStatistics where
  nullCount : Int64
  /-- The number of distinct values, 0 when it is not known. -/
  distinctCount : Int64
  /-- The lower bound, plainly encoded. -/
  min : Option Bytes
  /-- The upper bound, plainly encoded. -/
  max : Option Bytes
deriving DecidableEq, Repr

namespace ColumnStatistics

/-- Statistics of which nothing is known. -/
def unknown : ColumnStatistics := ⟨0, 0, none, none⟩

/-- The statistics of a record, or of a chunk without one. -/
def ofRecord : Option Record.Statistics → ColumnStatistics
  | none => unknown
  | some record =>
    ⟨record.nullCount.getD 0, record.distinctCount.getD 0, record.min.or record.minValue,
      record.max.or record.maxValue⟩

/-- The record of some statistics. -/
def toRecord (statistics : ColumnStatistics) : Record.Statistics where
  max := statistics.max
  min := statistics.min
  nullCount := some statistics.nullCount
  distinctCount := some statistics.distinctCount
  maxValue := none
  minValue := none

/-- Statistics are read from their own record. -/
theorem ofRecord_toRecord (statistics : ColumnStatistics) :
    ofRecord (some statistics.toRecord) = statistics := by
  cases statistics with
  | mk nullCount distinctCount min max => cases min <;> cases max <;> rfl

end ColumnStatistics

end ParquetFooter
