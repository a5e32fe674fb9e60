import ParquetFooter.Assembly.Chunk

/-! # Finished column chunks

What the record of a finished chunk holds, field by field: what the schema and the policy say of the
column, what was set last, and what was known at the end.
-/

namespace ParquetFooter

open Record

namespace ChunkEdit

/-- The file that a change sets. -/
def path? : ChunkEdit → Option String
  | filePath path => some path
  | statistics _ => none

/-- The statistics that a change sets. -/
def statistics? : ChunkEdit → Option ColumnStatistics
  | filePath _ => none
  | statistics given => some given

end ChunkEdit

/-- How a column chunk is written: the changes to it, and what is known at its end. -/
structure ChunkPlan where
  /-- The changes, in their order. -/
  edits : List ChunkEdit
  /-- What is known when all pages are written. -/
  summary : ChunkSummary
deriving DecidableEq, Repr

namespace ChunkPlan

/-- The file that was set last, where an empty name means none. -/
def path (plan : ChunkPlan) : Option String :=
  (plan.edits.filterMap ChunkEdit.path?).getLast?.filter (· ≠ "")

/-- The statistics that were set last. -/
def statistics (plan : ChunkPlan) : Option ColumnStatistics :=
  (plan.edits.filterMap ChunkEdit.statistics?).getLast?

/-- The record of the chunk of a column that was written to a plan. -/
def chunk (policy : Policy) (column : Column Primitive) (plan : ChunkPlan) : ColumnChunk :=
  ((ChunkAssembly.start policy column).complete plan.edits (some plan.summary)).chunk

end ChunkPlan

namespace ChunkAssembly

/-- The value of the last one of some is that of the first where there are no others. -/
theorem getD_last_cons {α β : Type} (value : α → β) (first : α) (others : List α) (before : β) :
    ((first :: others).getLast?.map value).getD before =
      (others.getLast?.map value).getD (value first) := by
  cases last : others.getLast? <;> simp [List.getLast?_cons, last]

/-- Changes leave all but the file and the statistics as they are, and of these the last counts. -/
theorem foldl_edit (assembly : ChunkAssembly) (edits : List ChunkEdit) :
    edits.foldl edit assembly =
      { assembly with
        filePath :=
          ((edits.filterMap ChunkEdit.path?).getLast?.map fun path =>
            if path = "" then none else some path).getD assembly.filePath
        metadata :=
          { assembly.metadata with
            statistics :=
              ((edits.filterMap ChunkEdit.statistics?).getLast?.map fun statistics =>
                some statistics.toRecord).getD assembly.metadata.statistics } } := by
  induction edits generalizing assembly with
  | nil => rfl
  | cons change edits ih =>
      rw [List.foldl_cons, ih]
      cases change with
      | filePath path =>
          simp only [edit, List.filterMap_cons, ChunkEdit.path?, ChunkEdit.statistics?,
            getD_last_cons]
      | statistics given =>
          simp only [edit, List.filterMap_cons, ChunkEdit.path?, ChunkEdit.statistics?,
            getD_last_cons]

end ChunkAssembly

/-- The record of a planned chunk, field by field. -/
theorem ChunkPlan.chunk_eq (policy : Policy) (column : Column Primitive) (plan : ChunkPlan) :
    plan.chunk policy column =
      { filePath := plan.path
        fileOffset := plan.summary.endOffset
        metadata := some
          { type := column.node.physicalType
            encodings := policy.encodings column.path column.node.physicalType
              plan.summary.dictionaryFallback
            pathInSchema := column.path.parts
            compression := policy.compression column.path
            numValues := plan.summary.numValues
            totalUncompressedSize := plan.summary.uncompressedSize
            totalCompressedSize := plan.summary.compressedSize
            keyValueMetadata := none
            dataPageOffset := plan.summary.dataPageOffset
            indexPageOffset := plan.summary.indexPageOffset
            dictionaryPageOffset := plan.summary.dictionaryPageOffset
            statistics := plan.statistics.map ColumnStatistics.toRecord } } := by
  have lastPath : (((plan.edits.filterMap ChunkEdit.path?).getLast?.map fun path =>
      if path = "" then none else some path).getD none) = plan.path := by
    rw [ChunkPlan.path]
    cases (plan.edits.filterMap ChunkEdit.path?).getLast? with
    | none => rfl
    | some path => by_cases empty : path = "" <;> simp [Option.filter, empty]
  have lastStatistics : (((plan.edits.filterMap ChunkEdit.statistics?).getLast?.map fun given =>
      some given.toRecord).getD none) = plan.statistics.map ColumnStatistics.toRecord := by
    rw [ChunkPlan.statistics]
    cases (plan.edits.filterMap ChunkEdit.statistics?).getLast? <;> rfl
  rw [ChunkPlan.chunk, ChunkAssembly.complete, ChunkAssembly.foldl_edit]
  simp only [ChunkAssembly.finish, ChunkAssembly.start, ChunkAssembly.chunk,
    ChunkAssembly.encodings, lastPath, lastStatistics]

end ParquetFooter
