import ParquetFooter.Proofs.Assembly.File
import ParquetFooter.Proofs.Record.RoundTrip
import ParquetFooter.Proofs.Schema.Levels

/-! # The sizes of what is written

A footer can be read back only if its lists and texts are within the bounds of the format. What goes
into a file comes from the schema, the policy and the plans of the row groups; where these are
within the bounds, the footer is.
-/

namespace ParquetFooter

open Record

/-- A text or byte string that is set is within the bounds of the format. -/
def ChunkEdit.Fits : ChunkEdit → Prop
  | filePath path => (Utf8.encode path).length < 2 ^ 64
  | statistics given => Statistics.codec.fits given.toRecord

/-- All that goes into a file is within the bounds of the format: fewer than `2 ^ 31` nodes, row
groups and entries of keys and values, and lengths of texts and byte strings below `2 ^ 64`. -/
structure SizesFit (root : Node) (policy : Policy) (plans : List RowGroupPlan) : Prop where
  nodes : (root.withDepths 0).length < 2 ^ 31
  names : ∀ entry ∈ root.withDepths 0, (Utf8.encode entry.2.name).length < 2 ^ 64
  rowGroups : plans.length < 2 ^ 31
  keyValueMetadata : KeyValue.AllFit policy.keyValueMetadata
  createdBy : (Utf8.encode policy.createdBy).length < 2 ^ 64
  edits : ∀ plan ∈ plans, ∀ chunk ∈ plan.chunks, ∀ edit ∈ chunk.edits, edit.Fits

/-- At most four encodings are recorded for a column. -/
theorem Policy.length_encodings_le (policy : Policy) (path : ColumnPath) (type : PhysicalType)
    (fallback : Bool) : (policy.encodings path type fallback).length ≤ 4 := by
  cases dictionary : policy.hasDictionary path <;> cases version : policy.version <;>
    cases fallback <;> simp [Policy.encodings, dictionary, version]

namespace ChunkPlan

variable {plan : ChunkPlan}

/-- A file path that is set last is within the bounds. -/
theorem path_fits (fits : ∀ edit ∈ plan.edits, edit.Fits) {path : String}
    (last : plan.path = some path) : (Utf8.encode path).length < 2 ^ 64 := by
  obtain ⟨last, -⟩ := Option.filter_eq_some_iff.mp last
  obtain ⟨edit, member, sets⟩ := List.mem_filterMap.mp (List.mem_of_getLast? last)
  cases edit with
  | filePath name =>
      obtain rfl : name = path := Option.some.inj sets
      exact fits _ member
  | statistics given => exact nomatch sets

/-- Statistics that are set last are within the bounds. -/
theorem statistics_fits (fits : ∀ edit ∈ plan.edits, edit.Fits) {given : ColumnStatistics}
    (last : plan.statistics = some given) : Statistics.codec.fits given.toRecord := by
  obtain ⟨edit, member, sets⟩ := List.mem_filterMap.mp (List.mem_of_getLast? last)
  cases edit with
  | filePath name => exact nomatch sets
  | statistics other =>
      obtain rfl : other = given := Option.some.inj sets
      exact fits _ member

/-- The record of a planned chunk is within the bounds. -/
theorem chunk_fits {policy : Policy} {column : Column Primitive}
    (fits : ∀ edit ∈ plan.edits, edit.Fits) (short : column.path.parts.length < 2 ^ 31)
    (names : ∀ name ∈ column.path.parts, (Utf8.encode name).length < 2 ^ 64) :
    ColumnChunk.codec.fits (plan.chunk policy column) := by
  rw [chunk_eq, ColumnChunk.fits_iff]
  refine ⟨fun path last => path_fits fits last, ?_⟩
  rintro _ ⟨⟩
  refine (ColumnMetadata.fits_iff _).mpr ⟨?_, ⟨short, names⟩, nofun, ?_⟩
  · exact Nat.lt_of_le_of_lt (policy.length_encodings_le _ _ _) (by decide)
  · intro record last
    obtain ⟨given, set, rfl⟩ := Option.map_eq_some_iff.mp last
    exact statistics_fits fits set

end ChunkPlan

/-- The footer of a planned file is within the bounds. -/
theorem FileAssembly.plannedFooter_fits {root : Node} (rooted : root.Rooted) {policy : Policy}
    {plans : List RowGroupPlan} (sizes : SizesFit root policy plans) (total : Int64) :
    Footer.codec.fits (plannedFooter ⟨root, root.columnBranches.map Node.rootLeaf⟩ policy plans
      total) := by
  have elements : (plannedFooter ⟨root, root.columnBranches.map Node.rootLeaf⟩ policy plans
      total).schema = (root.withDepths 0).map fun entry => entry.2.listed :=
    root.listing_eq_map
  refine (Footer.fits_iff _).mpr ⟨⟨?_, ?_⟩, ⟨?_, ?_⟩, sizes.keyValueMetadata, ?_⟩
  · rw [elements, List.length_map]
    exact sizes.nodes
  · rw [elements, List.forall_mem_map]
    intro entry member
    rw [SchemaElement.fits_iff, Node.listed_name]
    exact sizes.names entry member
  · rw [plannedFooter, List.length_map]
    exact sizes.rowGroups
  · rw [plannedFooter, List.forall_mem_map]
    intro plan planned
    refine (RowGroup.fits_iff _).mpr ⟨?_, fun record member => ?_⟩
    · -- There are no more chunks than leaves, and no more leaves than nodes.
      refine Nat.lt_of_le_of_lt ?_ sizes.nodes
      refine Nat.le_trans ?_ root.length_columnBranches_le
      rw [RowGroupPlan.record, RowGroupPlan.columns, List.length_zipWith, List.length_map]
      exact Nat.min_le_left _ _
    · obtain ⟨leaf, leafMember, chunk, chunkMember, rfl⟩ :=
        RowGroupPlan.exists_of_mem_columns member
      obtain ⟨place, placeMember, rfl⟩ := List.mem_map.mp leafMember
      obtain ⟨short, inside⟩ := rooted.of_mem_columnBranches placeMember
      have parts : (Node.rootLeaf place).path.parts = place.2.nodes.map Node.name :=
        List.nil_append _
      refine ChunkPlan.chunk_fits (sizes.edits plan planned chunk chunkMember) ?_ ?_
      · rw [parts, List.length_map]
        exact Nat.lt_of_le_of_lt short (by decide)
      · rw [parts, List.forall_mem_map]
        intro node onBranch
        obtain ⟨entry, entryMember, rfl⟩ := inside node onBranch
        exact sizes.names entry entryMember
  · rintro _ ⟨⟩
    exact sizes.createdBy

end ParquetFooter
