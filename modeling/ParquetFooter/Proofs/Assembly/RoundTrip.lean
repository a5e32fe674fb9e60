import ParquetFooter.Proofs.Assembly.Sizes
import ParquetFooter.Proofs.Metadata.Acceptance
import ParquetFooter.Proofs.Schema.RoundTrip

/-! # What is written is read

The metadata of a file that was written to plans show what the plans say, field by field. They do so
as they come from finishing the file, and again when they were decoded from their bytes.
-/

namespace ParquetFooter

open Record Calls

/-- What is seen of a column is what was set for its chunk, and what the schema and the policy say
of the column. -/
structure ColumnView.Shows (view : ColumnView) (policy : Policy) (leaf : Leaf) (plan : ChunkPlan) :
    Prop where
  numValues : view.metadata.numValues = plan.summary.numValues
  dictionaryPageOffset : view.metadata.dictionaryPageOffset = plan.summary.dictionaryPageOffset
  indexPageOffset : view.metadata.indexPageOffset = plan.summary.indexPageOffset
  dataPageOffset : view.metadata.dataPageOffset = plan.summary.dataPageOffset
  compressedSize : view.metadata.totalCompressedSize = plan.summary.compressedSize
  uncompressedSize : view.metadata.totalUncompressedSize = plan.summary.uncompressedSize
  fileOffset : view.chunk.fileOffset = plan.summary.endOffset
  filePath : view.filePath = plan.path
  hasStatistics : view.hasStatistics = plan.statistics.isSome
  statistics : view.statistics = plan.statistics.getD .unknown
  column : view.column = leaf.toColumn
  type : view.metadata.type = leaf.node.physicalType
  path : view.path = leaf.path
  compression : view.metadata.compression = policy.compression leaf.path
  encodings : view.metadata.encodings =
    policy.encodings leaf.path leaf.node.physicalType plan.summary.dictionaryFallback

/-- What is seen of a row group is what its plan says, column by column. -/
structure RowGroupView.Shows (view : RowGroupView) (schema : Schema) (policy : Policy)
    (plan : RowGroupPlan) : Prop where
  numRows : view.record.numRows = plan.numRows
  totalByteSize : view.record.totalByteSize = plan.written
  numColumns : view.numColumns = schema.numColumns
  columns : ∀ (position : Nat) (leaf : Leaf) (chunk : ChunkPlan),
    schema.leaves[position]? = some leaf → plan.chunks[position]? = some chunk →
    ∃ column, view.column position = .ok column ∧ column.Shows policy leaf chunk

/-- What is seen of a file is its schema, what the policy says of it, and its row groups in the
order of their plans. -/
structure FileMetadata.Shows (metadata : FileMetadata) (schema : Schema) (policy : Policy)
    (plans : List RowGroupPlan) (total : Int64) : Prop where
  sameSchema : metadata.schema = schema
  version : metadata.record.version = policy.version.number
  createdBy : metadata.record.createdBy = some policy.createdBy
  keyValueMetadata : metadata.record.keyValueMetadata = policy.keyValueMetadata
  numRows : metadata.record.numRows = total
  numRowGroups : metadata.numRowGroups = plans.length
  rowGroups : ∀ (index : Nat) (plan : RowGroupPlan), plans[index]? = some plan →
    ∃ view, metadata.rowGroup index = .ok view ∧ view.Shows schema policy plan

/-- The record of a planned chunk shows its plan. -/
theorem ChunkPlan.exists_shows (policy : Policy) (leaf : Leaf) (plan : ChunkPlan) :
    ∃ metadata, (plan.chunk policy leaf.toColumn).metadata = some metadata ∧
      ColumnView.Shows ⟨plan.chunk policy leaf.toColumn, metadata, leaf.toColumn⟩ policy leaf
        plan := by
  rw [ChunkPlan.chunk_eq]
  refine ⟨_, rfl, rfl, rfl, rfl, rfl, rfl, rfl, rfl, ?_, ?_, ?_, rfl, rfl, rfl, rfl, rfl⟩
  · rw [ColumnView.filePath, ChunkPlan.path, Option.filter_filter]
    simp only [Bool.and_self]
  · exact Option.isSome_map
  · rw [ColumnView.statistics]
    cases plan.statistics with
    | none => rfl
    | some given => exact ColumnStatistics.ofRecord_toRecord given

/-- The record of a planned row group shows its plan. -/
theorem RowGroupPlan.shows (schema : Schema) (policy : Policy) {plan : RowGroupPlan}
    (every : plan.chunks.length = schema.numColumns) :
    RowGroupView.Shows ⟨plan.record schema policy, schema⟩ schema policy plan where
  numRows := rfl
  totalByteSize := rfl
  numColumns := length_columns every
  columns := by
    intro position leaf chunk leafHere chunkHere
    obtain ⟨metadata, given, shows⟩ := chunk.exists_shows policy leaf
    have here : (plan.columns schema policy)[position]? =
        some (chunk.chunk policy leaf.toColumn) := by
      rw [columns, List.getElem?_zipWith, leafHere, chunkHere]
    exact ⟨⟨chunk.chunk policy leaf.toColumn, metadata, leaf.toColumn⟩,
      RowGroupView.column_eq_ok.mpr ⟨leaf, here, leafHere, given, rfl⟩, shows⟩

/-- The footer of a planned file shows the plans, whatever schema it is taken with. -/
theorem FileMetadata.shows_plannedFooter {schema : Schema} (policy : Policy)
    {plans : List RowGroupPlan} (total : Int64)
    (every : ∀ plan ∈ plans, plan.chunks.length = schema.numColumns) :
    FileMetadata.Shows ⟨FileAssembly.plannedFooter schema policy plans total, schema⟩ schema policy
      plans total where
  sameSchema := rfl
  version := rfl
  createdBy := rfl
  keyValueMetadata := rfl
  numRows := rfl
  numRowGroups := List.length_map _
  rowGroups := by
    intro index plan here
    refine ⟨⟨plan.record schema policy, schema⟩, rowGroup_eq_ok.mpr ?_,
      plan.shows schema policy (every plan (List.mem_of_getElem? here))⟩
    simp only [rowGroups, FileAssembly.plannedFooter, List.map_map, List.getElem?_map, here]
    rfl

/-- The footer of a planned file is accepted with the schema of the file. -/
theorem FileMetadata.ofRecord_plannedFooter {schema : Schema} (policy : Policy)
    {plans : List RowGroupPlan} (total : Int64)
    (read : Node.ofElements schema.root.listing = .ok schema.root)
    (made : Schema.ofNode schema.root = .ok schema)
    (every : ∀ plan ∈ plans, plan.chunks.length = schema.numColumns) :
    ofRecord (FileAssembly.plannedFooter schema policy plans total) =
      .ok ⟨FileAssembly.plannedFooter schema policy plans total, schema⟩ := by
  refine ofRecord_eq_ok.mpr ⟨schema.root, schema, read, made, ?_, rfl⟩
  refine checkRowGroups_eq_ok.mpr fun rowGroup member => ?_
  obtain ⟨plan, planned, rfl⟩ := List.mem_map.mp member
  refine ⟨RowGroupPlan.length_columns (every plan planned), fun record inside => ?_⟩
  obtain ⟨leaf, -, chunk, -, rfl⟩ := RowGroupPlan.exists_of_mem_columns inside
  rw [ChunkPlan.chunk_eq]
  rfl

namespace FileAssembly

/-- **What is written is read.** A tree without repetition at its root, with a repetition at every
other node and at most 128 levels deep is a schema. Let its primitives come from specifications. Let
the row groups of a file with that schema be written in order, each with a chunk for every column,
such that all calls succeed, and let the sums of the rows stay in range. Then finishing the file
succeeds, and the metadata show the schema, the policy and the plan of every chunk. Where the sizes
are within the bounds of the format, the very same metadata are decoded from the bytes. -/
theorem finish_shows_plans {root : Node} (rooted : root.Rooted)
    (made : ∀ entry ∈ root.withDepths 0, entry.2.Made)
    (kept : ∀ entry ∈ root.withDepths 0, entry.2.Kept) :
    ∃ schema, Schema.ofNode root = .ok schema ∧ schema.root = root ∧
      ∀ (policy : Policy) (plans : List RowGroupPlan) (total : Int64),
        (∀ plan ∈ plans, plan.chunks.length = schema.numColumns) →
        AllSucceed step (start schema policy) (plans.flatMap RowGroupPlan.fileCalls) →
        runningSum? (plans.map (·.numRows)) = some total →
        ∃ metadata,
          (after step (start schema policy) (plans.flatMap RowGroupPlan.fileCalls)).finish =
            .ok metadata ∧
          metadata.Shows schema policy plans total ∧
          (SizesFit root policy plans → FileMetadata.decode metadata.encode = .ok metadata) := by
  refine ⟨⟨root, root.columnBranches.map Node.rootLeaf⟩, rooted.ofNode_eq, rfl, ?_⟩
  intro policy plans total every succeed counted
  have footer := footer_after_plans rooted.flatten_eq every succeed counted
  have accepted := FileMetadata.ofRecord_plannedFooter policy total
    (rooted.ofElements_listing made kept) rooted.ofNode_eq every
  refine ⟨_, ?_, FileMetadata.shows_plannedFooter policy total every, fun sizes => ?_⟩
  · rw [finish, footer]
    exact accepted
  · have own := Footer.decode_append (plannedFooter_fits rooted sizes total) []
    rw [List.append_nil] at own
    exact FileMetadata.decode_eq_ok.mpr ⟨_, own, accepted⟩

/-- A schema with a required leaf, and a repeated one in an optional group. -/
def sampleRoot : Node :=
  .group ⟨"schema", none, none⟩
    [.primitive ⟨"id", some .required, .int64, -1, some 1⟩,
      .group ⟨"tags", some .optional, none⟩
        [.primitive ⟨"tag", some .repeated, .byteArray, -1, none⟩]]

/-- Two row groups. The file of a chunk is set twice, and its statistics once. -/
def samplePlans : List RowGroupPlan :=
  [ ⟨5, [⟨[.filePath "part-0", .statistics ⟨2, 0, some [1], none⟩, .filePath ""],
      ⟨5, some 4, none, 20, 30, 40, false⟩⟩, ⟨[.filePath "part-1"],
      ⟨9, none, some 90, 50, 12, 12, true⟩⟩], 42⟩,
    ⟨3, [⟨[], ⟨3, none, none, 100, 8, 8, false⟩⟩, ⟨[], ⟨3, none, none, 108, 8, 9, false⟩⟩], 16⟩ ]

/-- The sample can be the schema of a file. -/
theorem sampleRoot_rooted : sampleRoot.Rooted := by
  refine Node.rooted_group_iff.mpr ⟨rfl, ?_, ?_⟩ <;> decide

/-- The row groups are within the bounds of the format. -/
theorem samplePlans_fit : SizesFit sampleRoot .default samplePlans where
  nodes := by decide
  names := by decide
  rowGroups := by decide
  keyValueMetadata := nofun
  createdBy := by decide
  edits := by
    simp [samplePlans, ChunkEdit.Fits, Statistics.fits_iff, ColumnStatistics.toRecord]
    decide

/-- The two row groups are shown, and decoded from their bytes. -/
theorem finish_shows_plans_sample :
    sampleRoot.Rooted ∧ (∀ entry ∈ sampleRoot.withDepths 0, entry.2.Made) ∧
    (∀ entry ∈ sampleRoot.withDepths 0, entry.2.Kept) ∧
    ∃ schema, Schema.ofNode sampleRoot = .ok schema ∧
      (∀ plan ∈ samplePlans, plan.chunks.length = schema.numColumns) ∧
      AllSucceed step (start schema .default) (samplePlans.flatMap RowGroupPlan.fileCalls) ∧
      runningSum? (samplePlans.map (·.numRows)) = some 8 ∧
      SizesFit sampleRoot .default samplePlans ∧
      ∃ metadata,
        (after step (start schema .default) (samplePlans.flatMap RowGroupPlan.fileCalls)).finish =
          .ok metadata ∧
        metadata.Shows schema .default samplePlans 8 ∧
        FileMetadata.decode metadata.encode = .ok metadata := by
  have sampleMade : ∀ entry ∈ sampleRoot.withDepths 0, entry.2.Made := by decide
  have kept : ∀ entry ∈ sampleRoot.withDepths 0, entry.2.Kept := by decide
  obtain ⟨schema, made, -, shown⟩ := finish_shows_plans sampleRoot_rooted sampleMade kept
  have same := made.symm.trans sampleRoot_rooted.ofNode_eq
  obtain rfl := Except.ok.inj same
  have every : ∀ plan ∈ samplePlans, plan.chunks.length =
      (⟨sampleRoot, sampleRoot.columnBranches.map Node.rootLeaf⟩ : Schema).numColumns := by decide
  have succeed : AllSucceed step (start ⟨sampleRoot, sampleRoot.columnBranches.map Node.rootLeaf⟩
      .default) (samplePlans.flatMap RowGroupPlan.fileCalls) :=
    ⟨⟨_, rfl⟩, ⟨_, rfl⟩, ⟨_, rfl⟩, ⟨_, rfl⟩, ⟨_, rfl⟩, ⟨_, rfl⟩, ⟨_, rfl⟩, ⟨_, rfl⟩, trivial⟩
  have counted : runningSum? (samplePlans.map (·.numRows)) = some 8 := by decide
  obtain ⟨metadata, finishes, shows, decoded⟩ := shown .default samplePlans 8 every succeed counted
  exact ⟨sampleRoot_rooted, sampleMade, kept, _, made, every, succeed, counted, samplePlans_fit,
    metadata, finishes, shows, decoded samplePlans_fit⟩

/-- One row group with one chunk. -/
def lengthlessPlans : List RowGroupPlan := [⟨3, [⟨[], ⟨3, none, none, 4, 24, 30, false⟩⟩], 24⟩]

/-- That the primitives come from specifications is needed. A leaf with a type of a fixed length and
no length meets all other conditions, and its row group is written, but the file is not finished. -/
theorem lengthless_not_finished :
    Node.lengthless.Rooted ∧ (∀ entry ∈ Node.lengthless.withDepths 0, entry.2.Kept) ∧
    ∃ schema, Schema.ofNode Node.lengthless = .ok schema ∧
      (∀ plan ∈ lengthlessPlans, plan.chunks.length = schema.numColumns) ∧
      AllSucceed step (start schema .default) (lengthlessPlans.flatMap RowGroupPlan.fileCalls) ∧
      runningSum? (lengthlessPlans.map (·.numRows)) = some 3 ∧
      (after step (start schema .default)
          (lengthlessPlans.flatMap RowGroupPlan.fileCalls)).finish =
        .error (.fault (.defect (.fixedLength (-1) "a"))) := by
  refine ⟨Node.rooted_group_iff.mpr ⟨rfl, by decide, by decide⟩, by decide, _, rfl, ?_, ?_, ?_, rfl⟩
  · decide
  · exact ⟨⟨_, rfl⟩, ⟨_, rfl⟩, ⟨_, rfl⟩, trivial⟩
  · decide

end FileAssembly

end ParquetFooter
