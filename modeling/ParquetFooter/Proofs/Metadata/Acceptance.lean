import ParquetFooter.Framing.Trailer
import ParquetFooter.Metadata.Text
import ParquetFooter.Proofs.Failure
import ParquetFooter.Proofs.Record.RoundTrip
import ParquetFooter.Proofs.Schema.Levels
import ParquetFooter.Proofs.Schema.Parse
import ParquetFooter.Proofs.Schema.Text

/-! # Footers that are accepted

A footer is accepted when its schema can be read and each of its row groups has a chunk with
metadata for every column. What is accepted can be looked at in every part, and printed. Whatever
the bytes are, a footer is accepted or found at fault: no contract is broken on the way.
-/

namespace ParquetFooter

open Record

/-- A row group passes when it has a chunk for every column, and metadata in every chunk. -/
theorem checkRowGroup_eq_ok {columns index : Nat} {rowGroup : RowGroup} :
    checkRowGroup columns index rowGroup = .ok () ↔
      rowGroup.columns.length = columns ∧ ∀ chunk ∈ rowGroup.columns, chunk.metadata.isSome := by
  rw [checkRowGroup]
  split
  next different => exact ⟨nofun, fun fine => absurd fine.1 different⟩
  next same =>
    split
    next column found =>
      refine ⟨nofun, fun fine => ?_⟩
      obtain ⟨inside, missing, -⟩ := List.findIdx?_eq_some_iff_getElem.mp found
      have present := fine.2 _ (List.getElem_mem inside)
      rw [Option.isNone_iff_eq_none.mp missing] at present
      exact nomatch present
    next complete =>
      have present := List.findIdx?_eq_none_iff.mp complete
      refine ⟨fun _ => ⟨Decidable.not_not.mp same, fun chunk member => ?_⟩, fun _ => rfl⟩
      exact Option.isNone_eq_false_iff.mp (present chunk member)

/-- Row groups pass when each of them does. -/
theorem checkRowGroups_eq_ok {columns index : Nat} {rowGroups : List RowGroup} :
    checkRowGroups columns index rowGroups = .ok () ↔
      ∀ rowGroup ∈ rowGroups, rowGroup.columns.length = columns ∧
        ∀ chunk ∈ rowGroup.columns, chunk.metadata.isSome := by
  induction rowGroups generalizing index with
  | nil => exact ⟨fun _ => List.forall_mem_nil _, fun _ => rfl⟩
  | cons rowGroup rest ih =>
      rw [checkRowGroups, Except.bind_eq_ok, List.forall_mem_cons, ← checkRowGroup_eq_ok, ← ih]
      exact ⟨fun ⟨_, head, tail⟩ => ⟨head, tail⟩, fun ⟨head, tail⟩ => ⟨(), head, tail⟩⟩

/-- What is seen of a column is its chunk, the metadata of the chunk, and the column. -/
theorem RowGroupView.column_eq_ok {view : RowGroupView} {index : Nat} {column : ColumnView} :
    view.column index = .ok column ↔
      ∃ leaf, view.record.columns[index]? = some column.chunk ∧
        view.schema.leaves[index]? = some leaf ∧
        column.chunk.metadata = some column.metadata ∧ column.column = leaf.toColumn := by
  rw [RowGroupView.column]
  constructor
  · intro seen
    split at seen
    next => exact nomatch seen
    next chunk chunkHere =>
      split at seen
      next => exact nomatch seen
      next leaf leafHere =>
        split at seen
        next => exact nomatch seen
        next metadata given =>
          obtain rfl := Except.ok.inj seen
          exact ⟨leaf, chunkHere, leafHere, given, rfl⟩
  · rintro ⟨leaf, chunkHere, leafHere, given, same⟩
    simp only [chunkHere, leafHere, given, ← same]

namespace FileMetadata

/-- Accepted is a footer whose schema is read and whose row groups match it. -/
theorem ofRecord_eq_ok {record : Footer} {metadata : FileMetadata} :
    ofRecord record = .ok metadata ↔
      ∃ root schema, Node.ofElements record.schema = .ok root ∧ Schema.ofNode root = .ok schema ∧
        checkRowGroups schema.numColumns 0 record.rowGroups = .ok () ∧
        metadata = ⟨record, schema⟩ := by
  rw [ofRecord, Except.bind_eq_ok]
  constructor
  · rintro ⟨root, read, following⟩
    obtain ⟨schema, made, following⟩ := Except.bind_eq_ok.mp following
    obtain ⟨_, checked, same⟩ := Except.bind_eq_ok.mp following
    exact ⟨root, schema, liftM_fault_eq_ok.mp read, liftM_breach_eq_ok.mp made,
      liftM_fault_eq_ok.mp checked, (Except.ok.inj same).symm⟩
  · rintro ⟨root, schema, read, made, checked, rfl⟩
    exact ⟨root, liftM_fault_eq_ok.mpr read, Except.bind_eq_ok.mpr ⟨schema,
      liftM_breach_eq_ok.mpr made, Except.bind_eq_ok.mpr ⟨(), liftM_fault_eq_ok.mpr checked, rfl⟩⟩⟩

/-- Decoded are the bytes whose footer can be read and is accepted. -/
theorem decodeWithLength_eq_ok {bytes : Bytes} {metadata : FileMetadata} {length : Nat} :
    decodeWithLength bytes = .ok (metadata, length) ↔
      Footer.decode bytes = .ok (metadata.record, length) ∧
        ofRecord metadata.record = .ok metadata := by
  rw [decodeWithLength, Except.bind_eq_ok]
  constructor
  · rintro ⟨⟨record, taken⟩, decoded, following⟩
    obtain ⟨found, accepted, same⟩ := Except.bind_eq_ok.mp following
    obtain ⟨rfl, rfl⟩ := Prod.mk.inj (Except.ok.inj same)
    obtain ⟨root, schema, -, -, -, rfl⟩ := ofRecord_eq_ok.mp accepted
    exact ⟨liftM_fault_eq_ok.mp decoded, accepted⟩
  · rintro ⟨decoded, accepted⟩
    exact ⟨_, liftM_fault_eq_ok.mpr decoded, Except.bind_eq_ok.mpr ⟨metadata, accepted, rfl⟩⟩

/-- No more bytes are taken than there are. -/
theorem exists_taken_of_decodeWithLength {bytes : Bytes} {metadata : FileMetadata} {length : Nat}
    (decoded : decodeWithLength bytes = .ok (metadata, length)) :
    ∃ taken rest, bytes = taken ++ rest ∧ taken.length = length := by
  obtain ⟨read, -⟩ := decodeWithLength_eq_ok.mp decoded
  obtain ⟨taken, rest, whole, counted, -⟩ := Footer.exists_taken_of_decode read
  exact ⟨taken, rest, whole, counted⟩

/-- The same bytes are decoded when the number of bytes taken is not asked for. -/
theorem decode_eq_ok {bytes : Bytes} {metadata : FileMetadata} :
    decode bytes = .ok metadata ↔
      ∃ length, Footer.decode bytes = .ok (metadata.record, length) ∧
        ofRecord metadata.record = .ok metadata := by
  rw [decode, Except.bind_eq_ok]
  constructor
  · rintro ⟨⟨found, length⟩, decoded, same⟩
    obtain rfl := Except.ok.inj same
    exact ⟨length, decodeWithLength_eq_ok.mp decoded⟩
  · rintro ⟨length, decoded⟩
    exact ⟨_, decodeWithLength_eq_ok.mpr decoded, rfl⟩

/-- Whether a footer is accepted or not, no contract is broken: the schemas that are read are
rooted, so that levels can be counted in them. -/
theorem ofRecord_within (record : Footer) : Within (ofRecord record) := by
  refine .bind (.liftM_fault _) fun root read => .bind ?_ fun schema _ => .bind (.liftM_fault _) ?_
  · obtain ⟨schema, made, -, -⟩ :=
      (Node.rooted_of_ofElements (liftM_fault_eq_ok.mp read)).exists_schema
    exact .of_eq_ok (liftM_breach_eq_ok.mpr made)
  · exact fun _ _ => .ok _

/-- Whatever the bytes are, decoding them breaks no contract. -/
theorem decode_within (bytes : Bytes) : Within (decode bytes) := by
  refine .bind (.bind (.liftM_fault _) fun decoded _ => ?_) fun _ _ => .ok _
  exact .bind (ofRecord_within decoded.1) fun _ _ => .ok _

/-- Loading ends with a fault or with what the bytes of a footer are decoded to. -/
theorem load_induction {motive : Except Failure FileMetadata → Prop}
    (fault : ∀ cause, motive (.error (.fault cause))) (decoded : ∀ bytes, motive (decode bytes))
    (source : ByteSource) : motive (load source) := by
  unfold load loading
  by_cases short : source.length < trailerSize
  · rw [if_pos short]
    exact fault _
  rw [if_neg short]
  simp only [Loading.run]
  cases source.readExactly (source.length - trailerSize) trailerSize with
  | error cause => exact fault cause
  | ok trailer =>
      rw [liftM_ok_bind]
      cases footerLength trailer with
      | error cause => exact fault cause
      | ok footer =>
          simp only [Loading.run]
          by_cases cut : source.length < trailerSize + footer
          · rw [if_pos cut]
            exact fault _
          rw [if_neg cut]
          simp only [Loading.run]
          cases source.readRange (source.length - (trailerSize + footer)) footer with
          | error cause => exact fault cause
          | ok bytes => exact decoded bytes

/-- Whatever the source holds, loading from it breaks no contract. -/
theorem load_within (source : ByteSource) : Within (load source) :=
  load_induction .fault decode_within source

/-- A row group can be looked at when its index is in range. -/
theorem rowGroup_eq_ok {metadata : FileMetadata} {index : Nat} {view : RowGroupView} :
    metadata.rowGroup index = .ok view ↔ metadata.rowGroups[index]? = some view := by
  rw [rowGroup, rowGroups, List.getElem?_map]
  cases metadata.record.rowGroups[index]? with
  | none => exact ⟨nofun, nofun⟩
  | some record => simp

/-- Every column of an accepted footer can be looked at. -/
theorem exists_column {record : Footer} {metadata : FileMetadata}
    (accepted : ofRecord record = .ok metadata) {view : RowGroupView}
    (member : view ∈ metadata.rowGroups) {position : Nat} (inside : position < view.numColumns) :
    ∃ column, view.column position = .ok column := by
  obtain ⟨root, schema, -, -, checked, rfl⟩ := ofRecord_eq_ok.mp accepted
  obtain ⟨rowGroup, inFile, rfl⟩ := List.mem_map.mp member
  obtain ⟨columns, described⟩ := checkRowGroups_eq_ok.mp checked rowGroup inFile
  obtain ⟨chunk, chunkHere⟩ : ∃ chunk, rowGroup.columns[position]? = some chunk :=
    ⟨_, List.getElem?_eq_getElem inside⟩
  obtain ⟨leaf, leafHere⟩ : ∃ leaf, schema.leaves[position]? = some leaf :=
    ⟨_, List.getElem?_eq_getElem (Nat.lt_of_lt_of_eq inside columns)⟩
  obtain ⟨given, present⟩ :=
    Option.isSome_iff_exists.mp (described chunk (List.mem_of_getElem? chunkHere))
  exact ⟨⟨chunk, given, leaf.toColumn⟩,
    RowGroupView.column_eq_ok.mpr ⟨leaf, chunkHere, leafHere, present, rfl⟩⟩

/-- Every row group of an accepted footer can be looked at, and every column in it. -/
theorem exists_views {record : Footer} {metadata : FileMetadata}
    (accepted : ofRecord record = .ok metadata) :
    ∀ index < metadata.numRowGroups, ∃ view, metadata.rowGroup index = .ok view ∧
      ∀ position < view.numColumns, ∃ column, view.column position = .ok column := by
  intro index inside
  obtain ⟨view, here⟩ : ∃ view, metadata.rowGroups[index]? = some view :=
    ⟨_, List.getElem?_eq_getElem (Nat.lt_of_lt_of_eq inside (List.length_map _).symm)⟩
  exact ⟨view, rowGroup_eq_ok.mpr here,
    fun position below => exists_column accepted (List.mem_of_getElem? here) below⟩

/-- The columns of an accepted footer are sound. -/
theorem sound_of_ofRecord {record : Footer} {metadata : FileMetadata}
    (accepted : ofRecord record = .ok metadata) : metadata.schema.Sound := by
  obtain ⟨root, schema, read, made, -, rfl⟩ := ofRecord_eq_ok.mp accepted
  obtain ⟨same, again, -, sound⟩ := (Node.rooted_of_ofElements read).exists_schema
  rw [made] at again
  rwa [Except.ok.inj again]

/-- The schema of an accepted footer can be printed, and so can a report on the file. -/
theorem exists_text_of_ofRecord {record : Footer} {metadata : FileMetadata}
    (accepted : ofRecord record = .ok metadata) :
    (∃ text, metadata.schema.root.text = .ok text) ∧ ∃ report, metadata.text = .ok report := by
  obtain ⟨root, schema, read, made, -, rfl⟩ := ofRecord_eq_ok.mp accepted
  obtain ⟨same, again, sameRoot, -⟩ := (Node.rooted_of_ofElements read).exists_schema
  obtain rfl := Except.ok.inj (again.symm.trans made)
  rw [← sameRoot] at read
  obtain ⟨lines, printed, -, text⟩ := Node.exists_text (Node.made_of_ofElements read)
  refine ⟨⟨_, text⟩, ?_⟩
  rw [FileMetadata.text, FileMetadata.lines, printed]
  exact ⟨_, rfl⟩

/-- What was loaded was accepted as a footer. -/
theorem exists_ofRecord_of_load {source : ByteSource} {metadata : FileMetadata}
    (loaded : load source = .ok metadata) : ∃ record, ofRecord record = .ok metadata := by
  revert loaded
  apply load_induction (motive := fun outcome =>
    outcome = .ok metadata → ∃ record, ofRecord record = .ok metadata)
  · intro cause loaded
    cases loaded
  · intro bytes decoded
    obtain ⟨_, -, accepted⟩ := decode_eq_ok.mp decoded
    exact ⟨_, accepted⟩

/-- **No bytes break a contract.** Decoding some bytes, or loading from them as the content of a
file, gives metadata or a fault, and no more bytes are taken than there are. Every schema that can
be read has sound columns. Metadata that were decoded or loaded can be looked at in every part: the
columns of every row group that a report goes through are there, and so is each one that is asked
for by its index. Their schema can be printed, and so can a report on the file. -/
theorem bytes_keep_contract (bytes : Bytes) :
    Within (decode bytes) ∧ Within (load (.memory bytes)) ∧
    (∀ metadata length, decodeWithLength bytes = .ok (metadata, length) →
      ∃ taken rest, bytes = taken ++ rest ∧ taken.length = length) ∧
    (∀ elements root, Node.ofElements elements = .ok root →
      ∃ schema, Schema.ofNode root = .ok schema ∧ schema.root = root ∧ schema.Sound) ∧
    ∀ metadata, decode bytes = .ok metadata ∨ load (.memory bytes) = .ok metadata →
      metadata.schema.Sound ∧
      (∀ view ∈ metadata.rowGroups, ∀ column ∈ view.columns, ∃ seen, column = .ok seen) ∧
      (∀ index < metadata.numRowGroups, ∃ view, metadata.rowGroup index = .ok view ∧
        ∀ position < view.numColumns, ∃ column, view.column position = .ok column) ∧
      (∃ text, metadata.schema.root.text = .ok text) ∧
      ∃ report, metadata.text = .ok report := by
  refine ⟨decode_within bytes, load_within _, fun _ _ => exists_taken_of_decodeWithLength,
    fun elements root read => (Node.rooted_of_ofElements read).exists_schema, ?_⟩
  intro metadata found
  obtain ⟨record, accepted⟩ : ∃ record, ofRecord record = .ok metadata := by
    rcases found with decoded | loaded
    · obtain ⟨_, -, accepted⟩ := decode_eq_ok.mp decoded
      exact ⟨_, accepted⟩
    · exact exists_ofRecord_of_load loaded
  refine ⟨sound_of_ofRecord accepted, ?_, exists_views accepted, exists_text_of_ofRecord accepted⟩
  intro view member column columnMember
  obtain ⟨position, inside, rfl⟩ := List.mem_map.mp columnMember
  exact exists_column accepted member (List.mem_range.mp inside)

/-- The leaf of the schema in the mixed footer. -/
def sampleLeaf : Primitive :=
  ⟨"größe", some .optional, .fixedLenByteArray, 16, some (-7)⟩

/-- The mixed footer with its schema. -/
def sample : FileMetadata where
  record := Footer.sample
  schema :=
    ⟨.group ⟨"root", none, none⟩ [.primitive sampleLeaf], [⟨⟨sampleLeaf, ⟨["größe"]⟩, 1, 0⟩, 0⟩]⟩

theorem ofRecord_sample : ofRecord Footer.sample = .ok sample := rfl

/-- The mixed footer is decoded from its bytes, all of which are taken. -/
theorem decodeWithLength_sample :
    decodeWithLength Footer.sample.encode = .ok (sample, Footer.sample.encode.length) := by
  have own := Footer.decode_append Footer.sample_fits []
  rw [List.append_nil] at own
  exact decodeWithLength_eq_ok.mpr ⟨own, ofRecord_sample⟩

theorem decode_sample : decode Footer.sample.encode = .ok sample :=
  Except.bind_eq_ok.mpr ⟨_, decodeWithLength_sample, rfl⟩

/-- The bytes of the mixed footer are decoded, its schema and column are looked at, and it is
printed. -/
theorem bytes_keep_contract_sample :
    (Node.ofElements Footer.sample.schema = .ok sample.schema.root ∧
      ∃ schema, Schema.ofNode sample.schema.root = .ok schema ∧
        schema.root = sample.schema.root ∧ schema.Sound) ∧
    (∃ taken rest, Footer.sample.encode = taken ++ rest ∧
      taken.length = Footer.sample.encode.length) ∧
    decode Footer.sample.encode = .ok sample ∧ sample.schema.Sound ∧
      (∀ view ∈ sample.rowGroups, ∀ column ∈ view.columns, ∃ seen, column = .ok seen) ∧
      (∀ index < sample.numRowGroups, ∃ view, sample.rowGroup index = .ok view ∧
        ∀ position < view.numColumns, ∃ column, view.column position = .ok column) ∧
      (∃ text, sample.schema.root.text = .ok text) ∧ ∃ report, sample.text = .ok report := by
  obtain ⟨-, -, lengths, schemas, metadata⟩ := bytes_keep_contract Footer.sample.encode
  exact ⟨⟨rfl, schemas Footer.sample.schema _ rfl⟩, lengths sample _ decodeWithLength_sample,
    decode_sample, metadata sample (.inl decode_sample)⟩

end FileMetadata

end ParquetFooter
