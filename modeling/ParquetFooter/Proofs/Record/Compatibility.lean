import ParquetFooter.Proofs.Record.Lawful
import ParquetFooter.Proofs.Wire.Occurrence

/-! # Records of other writers

Every record type of a footer reads the fields that it knows wherever they stand, and steps over the
fields of a later version of the format. Encrypted metadata are the one exception: a column chunk
that holds them is refused where they are met.
-/

namespace ParquetFooter.Record

open Wire

namespace ColumnChunk

/-- Encrypted metadata are refused, whatever their type is. -/
theorem readField_encrypted (draft : layout.Draft) (type : WireType) (input : Bytes) :
    layout.readField draft ⟨type, 9⟩ input =
      .error (.unsupported "Encrypted column metadata is not supported") := rfl

/-- Encrypted metadata end the reading of a chunk, whatever follows their header. -/
theorem read_encrypted {before : List (Occurrence layout.Draft)}
    (admitted : ∀ occurrence ∈ before, layout.Admits occurrence) {type : WireType} {payload : Bytes}
    (legible : Legible 0 (before.map Occurrence.item ++ [⟨type, 9, payload⟩]))
    (others : List Item) (rest : Bytes) :
    layout.read (encodeItems 0 (before.map Occurrence.item ++ ⟨type, 9, payload⟩ :: others) ++
      rest) = .error (.unsupported "Encrypted column metadata is not supported") := by
  have walk := layout_lawful.walk_occurrences admitted layout.blank
  have refused := foldFields_refused walk legible (readField_encrypted _ type) others rest
  rw [Layout.read, Reader.bind_apply, refused]

/-- The fields of a chunk in an unusual order: the offset comes twice, behind the offset of an
index and a flag with a negative id. -/
def foreignFields : List (Occurrence layout.Draft) :=
  [.unknown .int64 4 [0xA4, 0x13], .known layout.fields[1] .int64 (5 : Int64),
    .unknown .booleanTrue (-3) [], .known layout.fields[0] .binary "part-0",
    .known layout.fields[1] .int64 (7 : Int64)]

/-- The fields in a foreign order may occur. -/
theorem foreignFields_writable : layout.Writable foreignFields where
  admitted := by
    simp only [foreignFields, List.forall_mem_cons, List.not_mem_nil, IsEmpty.forall_iff,
      implies_true, and_true]
    refine ⟨⟨by decide, rfl⟩, ⟨List.getElem_mem _, trivial⟩, ⟨by decide, rfl⟩,
      ⟨List.getElem_mem _, ?_⟩, List.getElem_mem _, trivial⟩
    change (Utf8.encode "part-0").length < 2 ^ 64
    decide
  legible := by
    simp [foreignFields, Legible, Occurrence.item, FieldHeader.Wraps, layout]
    decide

/-- They may be followed by encrypted metadata. -/
theorem legible_foreignFields_encrypted :
    Legible 0 (foreignFields.map Occurrence.item ++ [⟨.binary, 9, [0x01, 0x00]⟩]) := by
  simp [foreignFields, Legible, Occurrence.item, FieldHeader.Wraps, layout]
  decide

end ColumnChunk

/-- **Known fields are read wherever they stand.** Every record type reads, from any sequence of its
own and of unknown fields, the record with the values of the last occurrences, or names the first
required field that does not occur. The only field that is refused is the encrypted metadata of a
column chunk. -/
theorem records_take_last :
    Statistics.layout.TakesLast [] ∧
    KeyValue.layout.TakesLast [(1, "key")] ∧
    SchemaElement.layout.TakesLast [(4, "name")] ∧
    ColumnMetadata.layout.TakesLast [(1, "type_"), (2, "encodings"), (3, "path_in_schema"),
      (4, "codec"), (5, "num_values"), (6, "total_uncompressed_size"),
      (7, "total_compressed_size"), (9, "data_page_offset")] ∧
    ColumnChunk.layout.TakesLast [(2, "file_offset")] ∧
    RowGroup.layout.TakesLast [(1, "columns"), (2, "total_byte_size"), (3, "num_rows")] ∧
    Footer.layout.TakesLast [(1, "version"), (2, "schema"), (3, "num_rows"), (4, "row_groups")] ∧
    (∀ before : List (Occurrence ColumnChunk.layout.Draft),
      (∀ occurrence ∈ before, ColumnChunk.layout.Admits occurrence) → ∀ type payload,
      Legible 0 (before.map Occurrence.item ++ [⟨type, 9, payload⟩]) → ∀ others rest,
      ColumnChunk.layout.read
          (encodeItems 0 (before.map Occurrence.item ++ ⟨type, 9, payload⟩ :: others) ++ rest) =
        .error (.unsupported "Encrypted column metadata is not supported")) ∧
    ∀ name, (Fault.defect (.missingField name)).message =
      "Parquet error: " ++ ("Required field " ++ name ++ " is missing") := by
  refine ⟨Statistics.layout_lawful.takesLast Statistics.layout_requires,
    KeyValue.layout_lawful.takesLast KeyValue.layout_requires,
    SchemaElement.layout_lawful.takesLast SchemaElement.layout_requires,
    ColumnMetadata.layout_lawful.takesLast ColumnMetadata.layout_requires,
    ColumnChunk.layout_lawful.takesLast ColumnChunk.layout_requires,
    RowGroup.layout_lawful.takesLast RowGroup.layout_requires,
    Footer.layout_lawful.takesLast Footer.layout_requires, ?_, fun name => rfl⟩
  intro before admitted type payload legible others rest
  exact ColumnChunk.read_encrypted admitted legible others rest

open ColumnChunk in
/-- The chunk in an unusual order is read, a chunk without fields lacks its offset, and encrypted
metadata behind the fields are refused. -/
theorem records_take_last_sample :
    (layout.Writable foreignFields ∧ ∃ record,
      layout.read (encodeItems 0 (foreignFields.map Occurrence.item) ++ [0xFF]) =
        .ok (record, [0xFF]) ∧ record.filePath = some "part-0" ∧ record.fileOffset = 7) ∧
    (layout.Writable [] ∧
      layout.read (encodeItems 0 [] ++ [0xFF]) = .error (.defect (.missingField "file_offset"))) ∧
    (layout.read (encodeItems 0 (foreignFields.map Occurrence.item ++
        [⟨.binary, 9, [0x01, 0x00]⟩]) ++ [0xFF]) =
      .error (.unsupported "Encrypted column metadata is not supported")) := by
  obtain ⟨-, -, -, -, chunk, -, -, encrypted, -⟩ := records_take_last
  have empty : layout.Writable [] := ⟨List.forall_mem_nil _, trivial⟩
  refine ⟨⟨foreignFields_writable, ?_⟩, ⟨empty, chunk [] empty [0xFF]⟩, ?_⟩
  · obtain ⟨record, read, last⟩ := chunk foreignFields foreignFields_writable [0xFF]
    have path := (last layout.fields[0] (List.getElem_mem _) "part-0").mpr
      ⟨foreignFields.take 3, .binary, foreignFields.drop 4, rfl, by decide⟩
    have offset := (last layout.fields[1] (List.getElem_mem _) (7 : Int64)).mpr
      ⟨foreignFields.take 4, .int64, [], rfl, List.forall_mem_nil _⟩
    exact ⟨record, read, path, Option.some.inj offset⟩
  · exact encrypted foreignFields foreignFields_writable.admitted .binary [0x01, 0x00]
      legible_foreignFields_encrypted [] [0xFF]

end ParquetFooter.Record
