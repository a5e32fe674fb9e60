import ParquetFooter.Proofs.Assembly.Exact
import ParquetFooter.Proofs.Framing.RoundTrip
import ParquetFooter.Proofs.Metadata.Views
import ParquetFooter.Proofs.Schema.Reread

/-! # What chunks say of their columns

A column chunk records the type and the path of its column, which the schema gives once more. A
reader does not compare the two. It takes the chunk in some place for that of the leaf in this
place, and accepts or refuses a footer whatever its chunks say. That they say what the schema says
is for the writer to see to: every chunk that is handed out was started for the next leaf, and
nothing that is done to it changes its label.
-/

namespace ParquetFooter

open Record Calls

/-- What a chunk with metadata says of its column. -/
def Record.ColumnChunk.label? (chunk : ColumnChunk) : Option Label :=
  chunk.metadata.map fun metadata => ⟨metadata.type, metadata.pathInSchema⟩

/-- A row group says of its columns, in their order, what the schema says of them. -/
def Record.RowGroup.Labelled (rowGroup : RowGroup) (schema : Schema) : Prop :=
  rowGroup.columns.map ColumnChunk.label? = schema.labels.map some

/-- A chunk says of its column what the schema says of it. -/
structure ColumnView.Agrees (view : ColumnView) : Prop where
  type : view.metadata.type = view.column.node.physicalType
  path : view.path = view.column.path

/-- All columns of a row group can be seen, and each chunk agrees with its column. -/
def RowGroupView.Agrees (view : RowGroupView) : Prop :=
  ∀ position < view.numColumns, ∃ column, view.column position = .ok column ∧ column.Agrees

/-- All row groups can be seen, and their chunks agree with their columns. -/
def FileMetadata.Agrees (metadata : FileMetadata) : Prop :=
  ∀ index < metadata.numRowGroups, ∃ view, metadata.rowGroup index = .ok view ∧ view.Agrees

/-- A chunk agrees with its column when their labels are the same. -/
theorem ColumnView.agrees_iff {view : ColumnView} {leaf : Leaf}
    (given : view.chunk.metadata = some view.metadata) (same : view.column = leaf.toColumn) :
    view.Agrees ↔ view.chunk.label? = some leaf.label := by
  have label : view.chunk.label? = some ⟨view.metadata.type, view.path.parts⟩ := by
    rw [ColumnChunk.label?, given]
    rfl
  rw [label]
  constructor
  · intro agrees
    rw [agrees.type, agrees.path, same]
    rfl
  · intro labels
    obtain ⟨type, path⟩ := Label.mk.inj (Option.some.inj labels)
    rw [← same] at path
    exact ⟨by rw [type, same], congrArg ColumnPath.mk path⟩

namespace FileMetadata

variable {record : Footer} {metadata : FileMetadata}

/-- Of an accepted footer, the chunks of a row group that is labelled with the columns of the schema
agree with them, and no others. -/
theorem rowGroup_agrees_iff (accepted : ofRecord record = .ok metadata) {rowGroup : RowGroup}
    (member : rowGroup ∈ metadata.record.rowGroups) :
    RowGroupView.Agrees ⟨rowGroup, metadata.schema⟩ ↔ rowGroup.Labelled metadata.schema := by
  have viewed : (⟨rowGroup, metadata.schema⟩ : RowGroupView) ∈ metadata.rowGroups :=
    List.mem_map_of_mem member
  constructor
  · intro agrees
    apply List.ext_getElem
    · obtain ⟨root, schema, -, -, checked, rfl⟩ := ofRecord_eq_ok.mp accepted
      obtain ⟨columns, -⟩ := checkRowGroups_eq_ok.mp checked rowGroup member
      rw [List.length_map, List.length_map, Schema.labels, List.length_map, columns]
      rfl
    · intro position inside _
      rw [List.length_map] at inside
      obtain ⟨column, seen, label⟩ := agrees position inside
      obtain ⟨leaf, chunkHere, leafHere, given, same⟩ := RowGroupView.column_eq_ok.mp seen
      rw [ColumnView.agrees_iff given same] at label
      obtain ⟨_, chunkIs⟩ := List.getElem?_eq_some_iff.mp chunkHere
      obtain ⟨_, leafIs⟩ := List.getElem?_eq_some_iff.mp leafHere
      simp only [Schema.labels, List.getElem_map, chunkIs, leafIs, label]
  · intro labelled position inside
    obtain ⟨column, seen⟩ := exists_column accepted viewed inside
    obtain ⟨leaf, chunkHere, leafHere, given, same⟩ := RowGroupView.column_eq_ok.mp seen
    have labels := congrArg (·[position]?) labelled
    simp only [Schema.labels, List.getElem?_map, chunkHere, leafHere, Option.map_some] at labels
    exact ⟨column, seen, (ColumnView.agrees_iff given same).mpr (Option.some.inj labels)⟩

/-- Of an accepted footer all chunks agree exactly where all row groups are labelled. -/
theorem agrees_iff (accepted : ofRecord record = .ok metadata) :
    metadata.Agrees ↔
      ∀ rowGroup ∈ metadata.record.rowGroups, rowGroup.Labelled metadata.schema := by
  constructor
  · intro agrees rowGroup member
    obtain ⟨index, inside, rfl⟩ := List.mem_iff_getElem.mp member
    obtain ⟨view, viewed, columns⟩ := agrees index inside
    rw [rowGroup_of_lt inside] at viewed
    rw [← Except.ok.inj viewed] at columns
    exact (rowGroup_agrees_iff accepted member).mp columns
  · intro labelled index inside
    have member := List.getElem_mem inside
    exact ⟨_, rowGroup_of_lt inside, (rowGroup_agrees_iff accepted member).mpr (labelled _ member)⟩

end FileMetadata

/-! ## Readers do not look at labels -/

/-- Metadata with nothing said of the column. -/
def Record.ColumnMetadata.unlabelled (metadata : ColumnMetadata) : ColumnMetadata :=
  { metadata with
    type := .boolean
    pathInSchema := [] }

/-- A row group whose chunks say nothing of their columns. -/
def Record.RowGroup.unlabelled (rowGroup : RowGroup) : RowGroup :=
  { rowGroup with
    columns := rowGroup.columns.map fun chunk =>
      { chunk with metadata := chunk.metadata.map ColumnMetadata.unlabelled } }

/-- A footer whose chunks say nothing of their columns. -/
def Record.Footer.unlabelled (footer : Footer) : Footer :=
  { footer with rowGroups := footer.rowGroups.map RowGroup.unlabelled }

/-- The check of a row group does not look at labels. -/
theorem checkRowGroup_unlabelled (columns index : Nat) (rowGroup : RowGroup) :
    checkRowGroup columns index rowGroup.unlabelled = checkRowGroup columns index rowGroup := by
  have missing : rowGroup.unlabelled.columns.findIdx? (·.metadata.isNone) =
      rowGroup.columns.findIdx? (·.metadata.isNone) := by
    simp [RowGroup.unlabelled, List.findIdx?_map, Function.comp_def]
  have length : rowGroup.unlabelled.columns.length = rowGroup.columns.length := List.length_map _
  rw [checkRowGroup, checkRowGroup, missing, length]

/-- Nor does the check of all row groups. -/
theorem checkRowGroups_unlabelled (columns index : Nat) (rowGroups : List RowGroup) :
    checkRowGroups columns index (rowGroups.map RowGroup.unlabelled) =
      checkRowGroups columns index rowGroups := by
  induction rowGroups generalizing index with
  | nil => rfl
  | cons rowGroup rest ih =>
      rw [List.map_cons, checkRowGroups, checkRowGroups, checkRowGroup_unlabelled, ih]

namespace FileMetadata

/-- Whether a record is accepted, and with which schema, does not depend on labels. -/
theorem ofRecord_unlabelled (record : Footer) :
    (ofRecord record.unlabelled).map schema = (ofRecord record).map schema := by
  have checked (columns : Nat) : checkRowGroups columns 0 record.unlabelled.rowGroups =
      checkRowGroups columns 0 record.rowGroups :=
    checkRowGroups_unlabelled columns 0 record.rowGroups
  have elements : record.unlabelled.schema = record.schema := rfl
  simp only [ofRecord, checked, elements]
  cases Node.ofElements record.schema with
  | error fault => rfl
  | ok root =>
      rw [liftM_ok_bind, liftM_ok_bind]
      cases Schema.ofNode root with
      | error breach => rfl
      | ok schema =>
          change Except.map _ (liftM (checkRowGroups schema.numColumns 0 record.rowGroups) >>= _) =
            Except.map _ (liftM (checkRowGroups schema.numColumns 0 record.rowGroups) >>= _)
          cases checkRowGroups schema.numColumns 0 record.rowGroups <;> rfl

/-- What bytes are decoded to is told by the record that they hold. -/
theorem decode_of_footer {bytes : Bytes} {record : Footer} {length : Nat}
    (decoded : Footer.decode bytes = .ok (record, length)) : decode bytes = ofRecord record := by
  rw [decode, decodeWithLength, decoded, liftM_ok_bind]
  dsimp only
  cases ofRecord record <;> rfl

end FileMetadata

/-! ## Writers label their chunks -/

/-- A chunk keeps the label that it was started with. -/
theorem HandedChunk.label?_record (handed : HandedChunk) :
    handed.record.label? =
      some ⟨handed.started.metadata.type, handed.started.metadata.pathInSchema⟩ := by
  obtain ⟨started, edits, summary?⟩ := handed
  obtain ⟨-, type, path, -⟩ := ChunkAssembly.kept_foldl_edit started edits
  rw [← type, ← path]
  cases summary? <;> rfl

/-- A row group that is done is labelled with the columns that its chunks were handed out for. -/
theorem RowGroupAssembly.Stands.labelled {schema : Schema} {policy : Policy} {numRows : Int64}
    {handed : List HandedChunk} {assembly : RowGroupAssembly}
    (stands : Stands schema policy numRows handed assembly) (done : assembly.stage = .done) :
    assembly.record.Labelled schema := by
  have all := (stands.complete done).all
  have slots := stands.slots
  rw [all, Nat.sub_self, List.replicate_zero, List.append_nil] at slots
  have started := stands.started
  rw [all, Schema.numColumns, List.take_length] at started
  have labels := congrArg (List.map fun chunk : ChunkAssembly =>
    some (Label.mk chunk.metadata.type chunk.metadata.pathInSchema)) started
  rw [List.map_map, List.map_map] at labels
  rw [RowGroup.Labelled, slots, List.map_map, Schema.labels, List.map_map]
  refine Eq.trans ?_ labels
  exact List.map_congr_left fun chunk _ => chunk.label?_record

namespace FileAssembly

/-- The elements of a footer are what the schema is flattened to. -/
theorem flatten_of_footer {file : FileAssembly} {record : Footer}
    (made : file.footer = .ok record) : file.schema.root.flatten = .ok record.schema := by
  obtain ⟨done, counted, -⟩ := footer_eq_ok made
  have all : file.doneCount = file.rowGroups.length :=
    List.countP_eq_length.mpr fun rowGroup member => decide_eq_true (done rowGroup member)
  rw [footer_of_counted all counted] at made
  cases flat : file.schema.root.flatten with
  | error fault =>
      rw [flat] at made
      cases made
  | ok elements =>
      rw [flat] at made
      rw [← Except.ok.inj made]

/-- What is finished is accepted, and its chunks agree with their columns. -/
theorem Collects.agrees {root : Node} {schema : Schema} {policy : Policy} {counts : List Int64}
    {file : FileAssembly} (collects : Collects schema policy counts file)
    (made : Schema.ofNode root = .ok schema) {metadata : FileMetadata}
    (finished : file.finish = .ok metadata) :
    FileMetadata.ofRecord metadata.record = .ok metadata ∧ metadata.Agrees := by
  cases footed : file.footer with
  | error fault =>
      rw [finish_of_footer_error footed] at finished
      cases finished
  | ok record =>
      rw [finish_of_footer footed] at finished
      obtain ⟨again, reread, read, remade, -, rfl⟩ := FileMetadata.ofRecord_eq_ok.mp finished
      obtain ⟨done, -, records⟩ := footer_eq_ok footed
      have flat := flatten_of_footer footed
      rw [collects.sameSchema, (Schema.group_of_ofNode made).1,
        Schema.flatten_of_ofNode made] at flat
      rw [← Except.ok.inj flat] at read
      have labels := Schema.labels_reread made read remade
      refine ⟨finished, (FileMetadata.agrees_iff finished).mpr ?_⟩
      rw [records, List.forall_mem_map]
      intro rowGroup member
      obtain ⟨numRows, handed, stands⟩ := collects.stands rowGroup member
      have labelled := stands.labelled (done rowGroup member)
      rwa [RowGroup.Labelled, ← labels] at labelled

end FileAssembly

namespace FileMetadata

/-- A leaf for numbers. -/
def idLeaf : Primitive := ⟨"id", some .required, .int32, -1, none⟩

/-- A leaf for weights, which may be missing. -/
def weightLeaf : Primitive := ⟨"weight", some .optional, .double, -1, none⟩

/-- A schema of two leaves. -/
def twoLeaves : Schema where
  root := .group ⟨"root", none, none⟩ [.primitive idLeaf, .primitive weightLeaf]
  leaves := [⟨⟨idLeaf, ⟨["id"]⟩, 0, 0⟩, 0⟩, ⟨⟨weightLeaf, ⟨["weight"]⟩, 1, 0⟩, 1⟩]

/-- A file of two leaves, whose only row group has chunks with these labels. -/
def twoLeafFile (first second : Label) : FileMetadata where
  record :=
    { version := 1
      schema := twoLeaves.root.listing
      numRows := 3
      rowGroups := [⟨[pageChunk first.type first.path 18, pageChunk second.type second.path 18],
        36, 3⟩]
      keyValueMetadata := none
      createdBy := none }
  schema := twoLeaves

/-- The chunks in the order of their leaves. -/
def orderedFile : FileMetadata := twoLeafFile ⟨.int32, ["id"]⟩ ⟨.double, ["weight"]⟩

/-- Each chunk in the place of the other. -/
def swappedFile : FileMetadata := twoLeafFile ⟨.double, ["weight"]⟩ ⟨.int32, ["id"]⟩

/-- A file of two leaves is decoded, whatever the labels of its chunks are. -/
theorem decode_twoLeafFile {first second : Label}
    (paths : ∀ path ∈ [first.path, second.path], path.length < 2 ^ 31 ∧
      ∀ name ∈ path, (Utf8.encode name).length < 2 ^ 64) :
    decode (twoLeafFile first second).encode = .ok (twoLeafFile first second) := by
  have accepted : ofRecord (twoLeafFile first second).record = .ok (twoLeafFile first second) := rfl
  have elements : twoLeaves.root.listing.length < 2 ^ 31 ∧
      ∀ element ∈ twoLeaves.root.listing, (Utf8.encode element.name).length < 2 ^ 64 := by decide
  have file : (Utf8.encode "part-0").length < 2 ^ 64 := by decide
  rw [List.forall_mem_cons, List.forall_mem_singleton] at paths
  apply decode_encode accepted
  simp [Footer.fits_iff, RowGroup.fits_iff, ColumnChunk.fits_iff, ColumnMetadata.fits_iff,
    KeyValue.AllFit, SchemaElement.fits_iff, twoLeafFile, pageChunk]
  exact ⟨elements, ⟨file, paths.1⟩, file, paths.2⟩

theorem decode_orderedFile : decode orderedFile.encode = .ok orderedFile :=
  decode_twoLeafFile (by decide)

theorem decode_swappedFile : decode swappedFile.encode = .ok swappedFile :=
  decode_twoLeafFile (by decide)

/-- Decoding accepts chunks in each other's places: the chunk of the first column says that it is
that of the second one. -/
theorem swapped_chunks_accepted :
    decode swappedFile.encode = .ok swappedFile ∧ ¬ swappedFile.Agrees ∧
    ∃ rowGroup column, swappedFile.rowGroup 0 = .ok rowGroup ∧ rowGroup.column 0 = .ok column ∧
      column.metadata.type = .double ∧ column.column.node.physicalType = .int32 ∧
      column.path = ⟨["weight"]⟩ ∧ column.column.path = ⟨["id"]⟩ := by
  refine ⟨decode_swappedFile, fun agrees => ?_, _, _, rfl, rfl, rfl, rfl, rfl, rfl⟩
  obtain ⟨_, viewed, columns⟩ := agrees 0 (by decide)
  obtain rfl := Except.ok.inj viewed
  obtain ⟨_, seen, same⟩ := columns 0 (by decide)
  obtain rfl := Except.ok.inj seen
  cases same.type

/-- **Chunks agree with their columns where their writer saw to it.** Decoding does not compare what
the chunks of a footer say with its schema: footers that differ in nothing else are accepted with
the same schema, or refused for the same reason. Of an accepted footer all columns of all row groups
can be seen, and the chunks agree with their columns exactly when every row group says of its
columns, in their order, what the schema says. This is so for every file that can be finished,
whatever calls were made to it, and again for what is decoded from its bytes, where the sizes are
within the bounds of the format. -/
theorem labels_of_chunks :
    (∀ bytes metadata, decode bytes = .ok metadata →
      (∀ index < metadata.numRowGroups, ∃ view, metadata.rowGroup index = .ok view ∧
        ∀ position < view.numColumns, ∃ column, view.column position = .ok column) ∧
      (metadata.Agrees ↔
        ∀ rowGroup ∈ metadata.record.rowGroups, rowGroup.Labelled metadata.schema)) ∧
    (∀ leftBytes rightBytes left right leftLength rightLength,
      Footer.decode leftBytes = .ok (left, leftLength) →
      Footer.decode rightBytes = .ok (right, rightLength) →
      left.unlabelled = right.unlabelled →
      (decode leftBytes).map schema = (decode rightBytes).map schema) ∧
    ∀ root schema policy calls metadata, Schema.ofNode root = .ok schema →
      (after FileAssembly.step (.start schema policy) calls).finish = .ok metadata →
      metadata.Agrees ∧
        (Footer.codec.fits metadata.record → decode metadata.encode = .ok metadata) := by
  refine ⟨?_, ?_, ?_⟩
  · intro bytes metadata decoded
    obtain ⟨_, -, accepted⟩ := decode_eq_ok.mp decoded
    exact ⟨exists_views accepted, agrees_iff accepted⟩
  · intro leftBytes rightBytes left right leftLength rightLength leftRead rightRead same
    rw [decode_of_footer leftRead, decode_of_footer rightRead, ← ofRecord_unlabelled left, same,
      ofRecord_unlabelled]
  · intro root schema policy calls metadata made finished
    have collects : FileAssembly.Collects schema policy _
        (after FileAssembly.step (.start schema policy) calls) :=
      FileAssembly.Collects.start.after calls
    obtain ⟨accepted, agrees⟩ := collects.agrees made finished
    exact ⟨agrees, decode_encode accepted⟩

/-- What `FileAssembly.oneRowGroup 3` makes of a file of one column. -/
def finishedFile : FileMetadata where
  record :=
    { version := Policy.default.version.number
      schema := RowGroupAssembly.oneColumn.root.listing
      numRows := 3
      rowGroups := [⟨[(ChunkPlan.chunk .default ⟨RowGroupAssembly.oneLeaf, ⟨["key"]⟩, 0, 0⟩
        ⟨[], ⟨3, none, none, 4, 24, 30, false⟩⟩)], 24, 3⟩]
      keyValueMetadata := none
      createdBy := some Policy.default.createdBy }
  schema := RowGroupAssembly.oneColumn

/-- The finished file is within the bounds of the format. -/
theorem finishedFile_fits : Footer.codec.fits finishedFile.record := by
  simp [Footer.fits_iff, RowGroup.fits_iff, ColumnChunk.fits_iff, ColumnMetadata.fits_iff,
    KeyValue.AllFit, SchemaElement.fits_iff, finishedFile, RowGroupAssembly.oneColumn,
    Node.listing, Node.listingAll, ChunkPlan.chunk_eq, ChunkPlan.path, ChunkPlan.statistics]
  decide

theorem finish_oneRowGroup :
    (after FileAssembly.step (.start RowGroupAssembly.oneColumn .default)
      (FileAssembly.oneRowGroup 3)).finish = .ok finishedFile := rfl

/-- The file with its chunks in order has the schema of the one where they are swapped, and its
chunks agree; and so do those of a finished file. -/
theorem labels_of_chunks_sample :
    (decode orderedFile.encode = .ok orderedFile ∧
      (∀ index < orderedFile.numRowGroups, ∃ view, orderedFile.rowGroup index = .ok view ∧
        ∀ position < view.numColumns, ∃ column, view.column position = .ok column) ∧
      orderedFile.Agrees) ∧
    (orderedFile.record.unlabelled = swappedFile.record.unlabelled ∧
      (decode orderedFile.encode).map schema = (decode swappedFile.encode).map schema) ∧
    (after FileAssembly.step (.start RowGroupAssembly.oneColumn .default)
        (FileAssembly.oneRowGroup 3)).finish = .ok finishedFile ∧
      finishedFile.Agrees ∧ decode finishedFile.encode = .ok finishedFile := by
  obtain ⟨labelled, unlabelled, written⟩ := labels_of_chunks
  obtain ⟨_, orderedRead, -⟩ := decode_eq_ok.mp decode_orderedFile
  obtain ⟨_, swappedRead, -⟩ := decode_eq_ok.mp decode_swappedFile
  obtain ⟨agrees, decoded⟩ := written RowGroupAssembly.oneColumn.root _ _ _ _ rfl finish_oneRowGroup
  obtain ⟨visible, agrees_iff⟩ := labelled _ _ decode_orderedFile
  refine ⟨⟨decode_orderedFile, visible, agrees_iff.mpr ?_⟩,
    ⟨rfl, unlabelled _ _ _ _ _ _ orderedRead swappedRead rfl⟩,
    finish_oneRowGroup, agrees, decoded finishedFile_fits⟩
  intro rowGroup member
  obtain rfl := List.mem_singleton.mp member
  rfl

end FileMetadata

end ParquetFooter
