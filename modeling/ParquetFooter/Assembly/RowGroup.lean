import ParquetFooter.Record.RowGroup
import ParquetFooter.Assembly.Chunk
import ParquetFooter.Assembly.RunningSum

/-!
# Writing a row group

A `RowGroupAssembly` has a slot for every leaf of the schema and hands them out in order. `step`
carries out a call and gives its answer with the assembly after it: writing the next column, or
finishing the row group with the number of bytes that were written for it. Finishing succeeds when
every column was started and finished, which shows in a positive offset, and the bytes written are
those of the columns. It closes the row group in either case.
-/

namespace ParquetFooter

open Record

/-- A call to a row group that is being written. -/
inductive RowGroupCall where
  /-- Starts the next column, changes it, and finishes it if all its pages are written. -/
  | column (edits : List ChunkEdit) (summary? : Option ChunkSummary)
  /-- Finishes the row group, for which this many bytes were written. -/
  | finish (written : Int64)
deriving DecidableEq, Repr

/-- A row group that is being written. -/
structure RowGroupAssembly where
  schema : Schema
  policy : Policy
  /-- The row group so far. -/
  record : RowGroup
  /-- The index of the next column. -/
  nextColumn : Nat
  /-- How far the row group has come. -/
  stage : Stage
deriving DecidableEq

namespace RowGroupAssembly

/-- A row group of which nothing is written. -/
def start (schema : Schema) (policy : Policy) (numRows : Int64) : RowGroupAssembly where
  schema := schema
  policy := policy
  record := ⟨List.replicate schema.numColumns .empty, 0, numRows⟩
  nextColumn := 0
  stage := .accepting

/-- The number of columns. -/
def numColumns (assembly : RowGroupAssembly) : Nat := assembly.record.columns.length

/-- Whether calls are still accepted. -/
def checkAccepting (assembly : RowGroupAssembly) : Except Fault Unit :=
  match assembly.stage with
  | .accepting => .ok ()
  | stage => .error (.defect (.closedRowGroup stage))

/-- The next column, of which nothing is written. -/
def startColumn (assembly : RowGroupAssembly) : Except Fault ChunkAssembly := do
  assembly.checkAccepting
  match assembly.schema.leaves[assembly.nextColumn]? with
  | some leaf => return .start assembly.policy leaf.toColumn
  | none => .error (.indexOutOfBound assembly.nextColumn assembly.numColumns)

/-- The row group with the next column in its slot. -/
def putColumn (assembly : RowGroupAssembly) (chunk : ColumnChunk) : RowGroupAssembly :=
  { assembly with
    record :=
      { assembly.record with columns := assembly.record.columns.set assembly.nextColumn chunk }
    nextColumn := assembly.nextColumn + 1 }

/-- Checks that all columns were started and finished, and that as many bytes were written as they
have together. -/
def check (assembly : RowGroupAssembly) (written : Int64) : Except Fault Unit := do
  let columns := assembly.record.columns
  if assembly.nextColumn ≠ columns.length then
    throw (.incomplete columns.length assembly.nextColumn)
  let finished := columns.countP fun chunk => decide (0 < chunk.fileOffset)
  if finished ≠ columns.length then throw (.incomplete columns.length finished)
  let sizes := columns.filterMap fun chunk => chunk.metadata.map (·.totalCompressedSize)
  match runningSum? sizes with
  | none => throw (.inconsistent .sizeOverflow)
  | some total =>
    if total ≠ written then throw (.inconsistent (.sizeMismatch written total))

/-- Writes the next column. -/
def writeColumn (assembly : RowGroupAssembly) (edits : List ChunkEdit)
    (summary? : Option ChunkSummary) : Except Fault ChunkAssembly × RowGroupAssembly :=
  match assembly.startColumn with
  | .ok started => (.ok started, assembly.putColumn (started.complete edits summary?).chunk)
  | .error fault => (.error fault, assembly)

/-- Finishes the row group. -/
def finish (assembly : RowGroupAssembly) (written : Int64) : Except Fault Unit × RowGroupAssembly :=
  match assembly.checkAccepting with
  | .error fault => (.error fault, assembly)
  | .ok () =>
    match assembly.check written with
    | .ok () =>
      let record := { assembly.record with totalByteSize := written }
      (.ok (), { assembly with record := record, stage := .done })
    | .error fault => (.error fault, { assembly with stage := .rejected })

/-- Carries out a call. The answer to a column call is the column as it was started. -/
def step (assembly : RowGroupAssembly) :
    RowGroupCall → Except Fault (Option ChunkAssembly) × RowGroupAssembly
  | .column edits summary? => (assembly.writeColumn edits summary?).map (Except.map some) id
  | .finish written => (assembly.finish written).map (Except.map fun _ => none) id

end RowGroupAssembly

end ParquetFooter
