import ParquetFooter.Metadata.FileMetadata
import ParquetFooter.Assembly.RowGroup

/-!
# Writing a file

A `FileAssembly` collects the row groups of a file in their order; calls go to the last one. When
all are done, `finish` joins them with the flattened schema and what the policy records about the
file, and puts the result through the same checks as a footer that was read.
-/

namespace ParquetFooter

open Record

/-- A call to a file that is being written. -/
inductive FileCall where
  /-- Appends a row group with a number of rows. -/
  | append (numRows : Int64)
  /-- A call to the last row group. -/
  | rowGroup (call : RowGroupCall)
deriving DecidableEq, Repr

/-- A file that is being written. -/
structure FileAssembly where
  schema : Schema
  policy : Policy
  /-- The row groups before the last one, in the order of the file. -/
  earlier : List RowGroupAssembly
  /-- The last row group, once there is one. -/
  current : Option RowGroupAssembly
deriving DecidableEq

namespace FileAssembly

/-- A file without row groups. -/
def start (schema : Schema) (policy : Policy) : FileAssembly := ⟨schema, policy, [], none⟩

/-- All row groups, in the order of the file. -/
def rowGroups (assembly : FileAssembly) : List RowGroupAssembly :=
  assembly.earlier ++ assembly.current.toList

/-- Appends a row group with a number of rows. -/
def append (assembly : FileAssembly) (numRows : Int64) : FileAssembly :=
  { assembly with
    earlier := assembly.rowGroups
    current := some (.start assembly.schema assembly.policy numRows) }

/-- Carries out a call. Before the first row group there is none to call, and nothing happens. -/
def step (assembly : FileAssembly) :
    FileCall → Except Fault (Option ChunkAssembly) × FileAssembly
  | .append numRows => (.ok none, assembly.append numRows)
  | .rowGroup call =>
    match assembly.current with
    | some rowGroup =>
      (rowGroup.step call).map id fun rowGroup => { assembly with current := some rowGroup }
    | none => (.ok none, assembly)

/-- The footer of a file, if all its row groups are done and their rows can be counted. -/
def footer (assembly : FileAssembly) : Except Failure Footer := do
  let rowGroups := assembly.rowGroups
  let done := rowGroups.countP fun rowGroup => decide (rowGroup.stage = .done)
  if done ≠ rowGroups.length then throw (.fault (.incomplete rowGroups.length done))
  match runningSum? (rowGroups.map (·.record.numRows)) with
  | none => throw (.fault (.inconsistent .rowCountOverflow))
  | some numRows =>
    return {
      version := assembly.policy.version.number
      schema := ← assembly.schema.root.flatten
      numRows := numRows
      rowGroups := rowGroups.map (·.record)
      keyValueMetadata := assembly.policy.keyValueMetadata
      createdBy := some assembly.policy.createdBy }

/-- The metadata of a file. -/
def finish (assembly : FileAssembly) : Except Failure FileMetadata := do
  FileMetadata.ofRecord (← assembly.footer)

end FileAssembly

end ParquetFooter
