import ParquetFooter.Proofs.Metadata.Acceptance
import ParquetFooter.Proofs.Schema.Columns

/-! # Views of accepted footers

Row groups and columns are looked at by their index. Of an accepted footer, every index below the
number of row groups or columns gives a view and every other one is out of bound; the chunk with an
index is described by the leaf with the same index among the elements of the schema. To go through
all row groups or columns is to ask for each index in turn.
-/

namespace ParquetFooter

open Record

/-- What is seen of a column is a chunk with its metadata and the column of a leaf, which an element
of the schema describes. -/
structure ColumnView.Presents (view : ColumnView) (chunk : ColumnChunk) (leaf : Leaf)
    (element : SchemaElement) : Prop where
  sameChunk : view.chunk = chunk
  metadata : chunk.metadata = some view.metadata
  sameColumn : view.column = leaf.toColumn
  describes : element.Describes view.column.node

/-- The columns of a row group are those of a schema, in the order of its leaf elements. -/
structure RowGroupView.Presents (view : RowGroupView) (rowGroup : RowGroup) (schema : Schema)
    (elements : List SchemaElement) : Prop where
  numColumns : view.numColumns = schema.numColumns
  column_iff : ∀ position,
    (∃ column, view.column position = .ok column) ↔ position < view.numColumns
  beyond : ∀ position, view.numColumns ≤ position →
    view.column position = .error (.indexOutOfBound position view.numColumns)
  column : ∀ position column, view.column position = .ok column →
    ∃ chunk leaf element, rowGroup.columns[position]? = some chunk ∧
      schema.leaves[position]? = some leaf ∧
      (Node.leafElements elements)[position]? = some element ∧ column.Presents chunk leaf element
  columns : view.columns = (List.range view.numColumns).map view.column

/-- The row groups of a file are those of a footer, in its order. -/
structure FileMetadata.Presents (metadata : FileMetadata) (record : Footer) : Prop where
  sameRecord : metadata.record = record
  numColumns : metadata.schema.numColumns = (Node.leafElements record.schema).length
  numRowGroups : metadata.numRowGroups = record.rowGroups.length
  rowGroup_iff : ∀ index,
    (∃ view, metadata.rowGroup index = .ok view) ↔ index < metadata.numRowGroups
  beyond : ∀ index, metadata.numRowGroups ≤ index →
    metadata.rowGroup index = .error (.indexOutOfBound index metadata.numRowGroups)
  rowGroup : ∀ index view, metadata.rowGroup index = .ok view →
    ∃ rowGroup, record.rowGroups[index]? = some rowGroup ∧
      view.Presents rowGroup metadata.schema record.schema
  rowGroups : metadata.rowGroups.map .ok =
    (List.range metadata.numRowGroups).map metadata.rowGroup

namespace RowGroupView

/-- No column is seen behind the last one. -/
theorem column_of_le {view : RowGroupView} {position : Nat} (beyond : view.numColumns ≤ position) :
    view.column position = .error (.indexOutOfBound position view.numColumns) := by
  unfold column
  rw [List.getElem?_eq_none beyond]

/-- Only columns with an index in range are seen. -/
theorem lt_of_column_eq_ok {view : RowGroupView} {position : Nat} {column : ColumnView}
    (seen : view.column position = .ok column) : position < view.numColumns := by
  apply Nat.lt_of_not_le
  intro beyond
  rw [column_of_le beyond] at seen
  exact nomatch seen

end RowGroupView

namespace FileMetadata

/-- A row group with an index in range is seen with the schema. -/
theorem rowGroup_of_lt {metadata : FileMetadata} {index : Nat}
    (inside : index < metadata.numRowGroups) :
    metadata.rowGroup index = .ok ⟨metadata.record.rowGroups[index], metadata.schema⟩ := by
  unfold rowGroup
  rw [List.getElem?_eq_getElem inside]

/-- No row group is seen behind the last one. -/
theorem rowGroup_of_le {metadata : FileMetadata} {index : Nat}
    (beyond : metadata.numRowGroups ≤ index) :
    metadata.rowGroup index = .error (.indexOutOfBound index metadata.numRowGroups) := by
  unfold rowGroup
  rw [List.getElem?_eq_none beyond]

/-- Row groups are seen exactly by the indices in range. -/
theorem rowGroup_iff {metadata : FileMetadata} {index : Nat} :
    (∃ view, metadata.rowGroup index = .ok view) ↔ index < metadata.numRowGroups := by
  by_cases inside : index < metadata.numRowGroups
  · exact iff_of_true ⟨_, rowGroup_of_lt inside⟩ inside
  · rw [rowGroup_of_le (Nat.le_of_not_lt inside)]
    exact iff_of_false nofun inside

/-- What is seen by an index is the record there. -/
theorem exists_rowGroup_of_eq_ok {metadata : FileMetadata} {index : Nat} {view : RowGroupView}
    (seen : metadata.rowGroup index = .ok view) :
    ∃ rowGroup, metadata.record.rowGroups[index]? = some rowGroup ∧
      view = ⟨rowGroup, metadata.schema⟩ := by
  rw [rowGroup_eq_ok, rowGroups, List.getElem?_map] at seen
  obtain ⟨rowGroup, here, same⟩ := Option.map_eq_some_iff.mp seen
  exact ⟨rowGroup, here, same.symm⟩

/-- To go through all row groups is to ask for each index in turn. -/
theorem map_ok_rowGroups (metadata : FileMetadata) :
    metadata.rowGroups.map .ok = (List.range metadata.numRowGroups).map metadata.rowGroup := by
  apply List.ext_getElem
  · simp only [rowGroups, numRowGroups, List.length_map, List.length_range]
  · intro index _ inside
    rw [List.length_map, List.length_range] at inside
    simp only [rowGroups, List.getElem_map, List.getElem_range, rowGroup_of_lt inside]
    rfl

/-- Accepted is a footer with a schema that can be read and, in every row group, one chunk with
metadata for each leaf element. -/
theorem exists_ofRecord_iff {record : Footer} :
    (∃ metadata, ofRecord record = .ok metadata) ↔
      (∃ root, Node.ofElements record.schema = .ok root) ∧
        ∀ rowGroup ∈ record.rowGroups,
          rowGroup.columns.length = (Node.leafElements record.schema).length ∧
            ∀ chunk ∈ rowGroup.columns, chunk.metadata.isSome := by
  constructor
  · rintro ⟨metadata, accepted⟩
    obtain ⟨root, schema, read, made, checked, -⟩ := ofRecord_eq_ok.mp accepted
    rw [Node.numColumns_eq read made] at checked
    exact ⟨⟨root, read⟩, checkRowGroups_eq_ok.mp checked⟩
  · rintro ⟨⟨root, read⟩, matching⟩
    obtain ⟨schema, made, -⟩ := (Node.rooted_of_ofElements read).exists_schema
    rw [← Node.numColumns_eq read made] at matching
    exact ⟨_, ofRecord_eq_ok.mpr ⟨root, schema, read, made, checkRowGroups_eq_ok.mpr matching, rfl⟩⟩

/-- The columns of a row group of an accepted footer are seen in the order of the leaf elements. -/
theorem presents_of_mem {record : Footer} {root : Node} {schema : Schema}
    (read : Node.ofElements record.schema = .ok root) (made : Schema.ofNode root = .ok schema)
    (checked : checkRowGroups schema.numColumns 0 record.rowGroups = .ok ()) {rowGroup : RowGroup}
    (member : rowGroup ∈ record.rowGroups) :
    RowGroupView.Presents ⟨rowGroup, schema⟩ rowGroup schema record.schema := by
  have accepted : ofRecord record = .ok ⟨record, schema⟩ :=
    ofRecord_eq_ok.mpr ⟨root, schema, read, made, checked, rfl⟩
  have viewed : (⟨rowGroup, schema⟩ : RowGroupView) ∈
      (⟨record, schema⟩ : FileMetadata).rowGroups := List.mem_map_of_mem member
  refine
    { numColumns := (checkRowGroups_eq_ok.mp checked rowGroup member).1
      column_iff := fun position => ⟨?_, exists_column accepted viewed⟩
      beyond := fun _ => RowGroupView.column_of_le
      column := ?_
      columns := rfl }
  · exact fun ⟨column, seen⟩ => RowGroupView.lt_of_column_eq_ok seen
  · intro position column seen
    obtain ⟨leaf, chunkHere, leafHere, metadata, sameColumn⟩ := RowGroupView.column_eq_ok.mp seen
    obtain ⟨element, elementHere, describes⟩ := Node.exists_leafElement read made leafHere
    have described : element.Describes column.column.node := by
      rw [sameColumn]
      exact describes
    exact ⟨column.chunk, leaf, element, chunkHere, leafHere, elementHere,
      ⟨rfl, metadata, sameColumn, described⟩⟩

/-- **Accepted footers are seen in the order of their schema.** A footer is accepted exactly when
its schema can be read and each of its row groups has one chunk with metadata for every leaf. Of an
accepted footer the row groups and columns are seen by their indices and no others, and the column
with an index is that of the leaf element with this index. -/
theorem ofRecord_presents (record : Footer) :
    ((∃ metadata, ofRecord record = .ok metadata) ↔
      (∃ root, Node.ofElements record.schema = .ok root) ∧
        ∀ rowGroup ∈ record.rowGroups,
          rowGroup.columns.length = (Node.leafElements record.schema).length ∧
            ∀ chunk ∈ rowGroup.columns, chunk.metadata.isSome) ∧
    ∀ metadata, ofRecord record = .ok metadata → metadata.Presents record := by
  refine ⟨exists_ofRecord_iff, fun metadata accepted => ?_⟩
  obtain ⟨root, schema, read, made, checked, rfl⟩ := ofRecord_eq_ok.mp accepted
  refine
    { sameRecord := rfl
      numColumns := Node.numColumns_eq read made
      numRowGroups := rfl
      rowGroup_iff := fun _ => rowGroup_iff
      beyond := fun _ => rowGroup_of_le
      rowGroup := ?_
      rowGroups := map_ok_rowGroups _ }
  intro index view seen
  obtain ⟨rowGroup, here, rfl⟩ := exists_rowGroup_of_eq_ok seen
  exact ⟨rowGroup, here, presents_of_mem read made checked (List.mem_of_getElem? here)⟩

/-- A finished chunk of one page, in a file of its own. -/
def pageChunk (type : PhysicalType) (path : List String) (size : Int64) : ColumnChunk where
  filePath := some "part-0"
  fileOffset := 4 + size
  metadata := some
    { type := type
      encodings := [.plain]
      pathInSchema := path
      compression := .snappy
      numValues := 3
      totalUncompressedSize := size
      totalCompressedSize := size
      keyValueMetadata := none
      dataPageOffset := 4
      indexPageOffset := none
      dictionaryPageOffset := none
      statistics := none }

/-- A footer with a leaf that has a number of children, an empty group, a leaf in a group, and two
row groups. -/
def nestedFooter : Footer where
  version := 1
  schema := [
    ⟨none, none, none, "root", some 3, none⟩,
    ⟨some .int64, none, some .required, "id", some 0, some 1⟩,
    ⟨none, none, some .optional, "nothing", none, none⟩,
    ⟨none, none, some .repeated, "list", some 1, none⟩,
    ⟨some .fixedLenByteArray, some 4, some .optional, "item", none, none⟩]
  numRows := 6
  rowGroups := [
    ⟨[pageChunk .int64 ["id"] 24, pageChunk .fixedLenByteArray ["list", "item"] 12], 36, 3⟩,
    ⟨[pageChunk .int64 ["id"] 20, pageChunk .fixedLenByteArray ["list", "item"] 9], 29, 3⟩]
  keyValueMetadata := none
  createdBy := none

/-- The nested footer is accepted, and its last chunk is seen with the leaf in the group. -/
theorem ofRecord_presents_nested :
    ∃ metadata, ofRecord nestedFooter = .ok metadata ∧ metadata.Presents nestedFooter ∧
      ∃ view column, metadata.rowGroup 1 = .ok view ∧ view.column 1 = .ok column ∧
        column.chunk = pageChunk .fixedLenByteArray ["list", "item"] 9 ∧
        column.column.node.name = "item" ∧ column.column.node.length = 4 := by
  obtain ⟨accepted_iff, presents⟩ := ofRecord_presents nestedFooter
  obtain ⟨metadata, accepted⟩ := accepted_iff.mpr ⟨⟨_, rfl⟩, by decide⟩
  have shown := presents metadata accepted
  obtain ⟨view, viewed⟩ := (shown.rowGroup_iff 1).mpr (shown.numRowGroups ▸ by decide)
  obtain ⟨rowGroup, here, columns⟩ := shown.rowGroup 1 view viewed
  have inside : 1 < view.numColumns := by
    rw [columns.numColumns, shown.numColumns]
    decide
  obtain ⟨column, seen⟩ := (columns.column_iff 1).mpr inside
  obtain ⟨chunk, leaf, element, chunkHere, -, elementHere, shows⟩ := columns.column 1 column seen
  obtain rfl := Option.some.inj here
  obtain rfl := Option.some.inj chunkHere
  obtain rfl := Option.some.inj elementHere
  exact ⟨metadata, accepted, shown, view, column, viewed, seen, shows.sameChunk,
    shows.describes.name.symm, shows.describes.length.symm⟩

end FileMetadata

end ParquetFooter
