import ParquetFooter.Proofs.Wire.Layout
import ParquetFooter.Record.Footer
import Mathlib.Logic.IsEmpty.Basic

/-! # The record types of a footer are lawful

Each table of fields is checked against the laws of layouts once, inner records first. Everything
that is known of a record type as a codec follows from its table.
-/

namespace ParquetFooter.Record

open Wire

/-- Statistics need none of their fields. -/
theorem Statistics.layout_requires : layout.Requires [] where
  known := List.forall_mem_nil _
  concludes _ := .whole

/-- The table of statistics has rising ids and gives every field a lawful codec. -/
theorem Statistics.layout_lawful : layout.Lawful where
  rising := by decide
  codecs := by
    simp +instances only [layout, List.forall_mem_cons]
    exact ⟨Codec.bytes_lawful, Codec.bytes_lawful, Codec.int64_lawful, Codec.int64_lawful,
      Codec.bytes_lawful, Codec.bytes_lawful, List.forall_mem_nil _⟩
  blank := by simp +instances [layout]
  found := by simp +instances [layout]
  kept := by simp +instances [layout]
  determined := by
    rintro ⟨⟩ ⟨⟩ same
    simpa +instances [layout] using same
  complete _ := rfl
  draft_of_finish finished := (Except.ok.inj finished).symm
  content draft := (layout_requires.concludes draft).content

/-- Statistics are read back, and reading them does not look behind them. -/
theorem Statistics.codec_lawful : codec.Lawful := Layout.Lawful.codec_lawful layout_lawful

/-- An entry needs its key. -/
theorem KeyValue.layout_requires : layout.Requires [(1, "key")] where
  known := by simp +instances [layout]
  concludes draft := by
    repeat refine .required (by simp +instances [Layout.Lacks, layout]) fun _ _ => ?_
    exact .whole

/-- The table of an entry is lawful: the key is there in every draft of an entry. -/
theorem KeyValue.layout_lawful : layout.Lawful where
  rising := by decide
  codecs := by
    simp +instances only [layout, List.forall_mem_cons]
    exact ⟨Codec.text_lawful, Codec.text_lawful, List.forall_mem_nil _⟩
  blank := by simp +instances [layout]
  found := by simp +instances [layout]
  kept := by simp +instances [layout]
  determined := by
    rintro ⟨⟩ ⟨⟩ same
    simpa +instances [layout] using same
  complete _ := rfl
  draft_of_finish := by
    rintro ⟨_, _⟩ record finished
    obtain ⟨key, rfl, finished⟩ := required_bind_eq_ok.mp finished
    rw [← Except.ok.inj finished]
    rfl
  content draft := (layout_requires.concludes draft).content

/-- Entries are read back. -/
theorem KeyValue.codec_lawful : codec.Lawful := Layout.Lawful.codec_lawful layout_lawful

/-- A schema element needs its name. -/
theorem SchemaElement.layout_requires : layout.Requires [(4, "name")] where
  known := by simp +instances [layout]
  concludes draft := by
    repeat refine .required (by simp +instances [Layout.Lacks, layout]) fun _ _ => ?_
    exact .whole

/-- The table of a schema element is lawful; all fields but the name may be missing. -/
theorem SchemaElement.layout_lawful : layout.Lawful where
  rising := by decide
  codecs := by
    simp +instances only [layout, List.forall_mem_cons]
    exact ⟨Codec.enumeration_lawful PhysicalType, Codec.int32_lawful,
      Codec.enumeration_lawful Repetition, Codec.text_lawful, Codec.int32_lawful,
      Codec.int32_lawful, List.forall_mem_nil _⟩
  blank := by simp +instances [layout]
  found := by simp +instances [layout]
  kept := by simp +instances [layout]
  determined := by
    rintro ⟨⟩ ⟨⟩ same
    simpa +instances [layout] using same
  complete _ := rfl
  draft_of_finish := by
    rintro ⟨_, _, _, _, _, _⟩ record finished
    obtain ⟨name, rfl, finished⟩ := required_bind_eq_ok.mp finished
    rw [← Except.ok.inj finished]
    rfl
  content draft := (layout_requires.concludes draft).content

/-- Schema elements are read back. -/
theorem SchemaElement.codec_lawful : codec.Lawful := Layout.Lawful.codec_lawful layout_lawful

/-- Metadata of a column need eight fields, which are asked for in the order of their ids. -/
theorem ColumnMetadata.layout_requires :
    layout.Requires [(1, "type_"), (2, "encodings"), (3, "path_in_schema"), (4, "codec"),
      (5, "num_values"), (6, "total_uncompressed_size"), (7, "total_compressed_size"),
      (9, "data_page_offset")] where
  known := by simp +instances [layout]
  concludes draft := by
    repeat refine .required (by simp +instances [Layout.Lacks, layout]) fun _ _ => ?_
    exact .whole

/-- The table of column metadata is lawful. -/
theorem ColumnMetadata.layout_lawful : layout.Lawful where
  rising := by decide
  codecs := by
    simp +instances only [layout, List.forall_mem_cons]
    exact ⟨Codec.enumeration_lawful PhysicalType,
      Codec.list_lawful (Codec.enumeration_lawful Encoding), Codec.list_lawful Codec.text_lawful,
      Codec.enumeration_lawful Compression, Codec.int64_lawful, Codec.int64_lawful,
      Codec.int64_lawful, Codec.list_lawful KeyValue.codec_lawful,
      Codec.int64_lawful, Codec.int64_lawful, Codec.int64_lawful,
      Statistics.codec_lawful, List.forall_mem_nil _⟩
  blank := by simp +instances [layout]
  found := by simp +instances [layout]
  kept := by simp +instances [layout]
  determined := by
    rintro ⟨⟩ ⟨⟩ same
    simpa +instances [layout] using same
  complete _ := rfl
  draft_of_finish := by
    rintro ⟨_, _, _, _, _, _, _, _, _, _, _, _⟩ record finished
    obtain ⟨type, rfl, finished⟩ := required_bind_eq_ok.mp finished
    obtain ⟨encodings, rfl, finished⟩ := required_bind_eq_ok.mp finished
    obtain ⟨pathInSchema, rfl, finished⟩ := required_bind_eq_ok.mp finished
    obtain ⟨compression, rfl, finished⟩ := required_bind_eq_ok.mp finished
    obtain ⟨numValues, rfl, finished⟩ := required_bind_eq_ok.mp finished
    obtain ⟨totalUncompressedSize, rfl, finished⟩ := required_bind_eq_ok.mp finished
    obtain ⟨totalCompressedSize, rfl, finished⟩ := required_bind_eq_ok.mp finished
    obtain ⟨dataPageOffset, rfl, finished⟩ := required_bind_eq_ok.mp finished
    rw [← Except.ok.inj finished]
    rfl
  content draft := (layout_requires.concludes draft).content

/-- Column metadata are read back. -/
theorem ColumnMetadata.codec_lawful : codec.Lawful := Layout.Lawful.codec_lawful layout_lawful

/-- Encrypted metadata are never read, so there is nothing to read back. -/
theorem ColumnChunk.encryptedMetadata_lawful : encryptedMetadata.Lawful where
  wire_ne_stop := nofun
  read_encode := fun {value} => nomatch value
  fits_of_read _ := trivial
  streams := .fail trivial

/-- A column chunk needs its offset. -/
theorem ColumnChunk.layout_requires : layout.Requires [(2, "file_offset")] where
  known := by simp +instances [layout]
  concludes draft := by
    repeat refine .required (by simp +instances [Layout.Lacks, layout]) fun _ _ => ?_
    exact .whole

/-- The table of a column chunk is lawful, with a field that is never written. -/
theorem ColumnChunk.layout_lawful : layout.Lawful where
  rising := by decide
  codecs := by
    simp +instances only [layout, List.forall_mem_cons]
    exact ⟨Codec.text_lawful, Codec.int64_lawful, ColumnMetadata.codec_lawful,
      encryptedMetadata_lawful, List.forall_mem_nil _⟩
  blank := by simp +instances [layout]
  found := by simp +instances [layout]
  kept := by simp +instances [layout]
  determined := by
    rintro ⟨⟩ ⟨⟩ same
    simpa +instances [layout] using same
  complete _ := rfl
  draft_of_finish := by
    rintro ⟨_, _, _⟩ record finished
    obtain ⟨fileOffset, rfl, finished⟩ := required_bind_eq_ok.mp finished
    rw [← Except.ok.inj finished]
    rfl
  content draft := (layout_requires.concludes draft).content

/-- Column chunks are read back. -/
theorem ColumnChunk.codec_lawful : codec.Lawful := Layout.Lawful.codec_lawful layout_lawful

/-- A row group needs all of its fields. -/
theorem RowGroup.layout_requires :
    layout.Requires [(1, "columns"), (2, "total_byte_size"), (3, "num_rows")] where
  known := by simp +instances [layout]
  concludes draft := by
    repeat refine .required (by simp +instances [Layout.Lacks, layout]) fun _ _ => ?_
    exact .whole

/-- The table of a row group is lawful. -/
theorem RowGroup.layout_lawful : layout.Lawful where
  rising := by decide
  codecs := by
    simp +instances only [layout, List.forall_mem_cons]
    exact ⟨Codec.list_lawful ColumnChunk.codec_lawful, Codec.int64_lawful,
      Codec.int64_lawful, List.forall_mem_nil _⟩
  blank := by simp +instances [layout]
  found := by simp +instances [layout]
  kept := by simp +instances [layout]
  determined := by
    rintro ⟨⟩ ⟨⟩ same
    simpa +instances [layout] using same
  complete _ := rfl
  draft_of_finish := by
    rintro ⟨_, _, _⟩ record finished
    obtain ⟨columns, rfl, finished⟩ := required_bind_eq_ok.mp finished
    obtain ⟨totalByteSize, rfl, finished⟩ := required_bind_eq_ok.mp finished
    obtain ⟨numRows, rfl, finished⟩ := required_bind_eq_ok.mp finished
    rw [← Except.ok.inj finished]
    rfl
  content draft := (layout_requires.concludes draft).content

/-- Row groups are read back. -/
theorem RowGroup.codec_lawful : codec.Lawful := Layout.Lawful.codec_lawful layout_lawful

/-- A footer needs its version, its schema, its rows and its row groups. -/
theorem Footer.layout_requires :
    layout.Requires [(1, "version"), (2, "schema"), (3, "num_rows"), (4, "row_groups")] where
  known := by simp +instances [layout]
  concludes draft := by
    repeat refine .required (by simp +instances [Layout.Lacks, layout]) fun _ _ => ?_
    exact .whole

/-- The table of a footer is lawful. -/
theorem Footer.layout_lawful : layout.Lawful where
  rising := by decide
  codecs := by
    simp +instances only [layout, List.forall_mem_cons]
    exact ⟨Codec.int32_lawful, Codec.list_lawful SchemaElement.codec_lawful,
      Codec.int64_lawful, Codec.list_lawful RowGroup.codec_lawful,
      Codec.list_lawful KeyValue.codec_lawful, Codec.text_lawful,
      List.forall_mem_nil _⟩
  blank := by simp +instances [layout]
  found := by simp +instances [layout]
  kept := by simp +instances [layout]
  determined := by
    rintro ⟨⟩ ⟨⟩ same
    simpa +instances [layout] using same
  complete _ := rfl
  draft_of_finish := by
    rintro ⟨_, _, _, _, _, _⟩ record finished
    obtain ⟨version, rfl, finished⟩ := required_bind_eq_ok.mp finished
    obtain ⟨schema, rfl, finished⟩ := required_bind_eq_ok.mp finished
    obtain ⟨numRows, rfl, finished⟩ := required_bind_eq_ok.mp finished
    obtain ⟨rowGroups, rfl, finished⟩ := required_bind_eq_ok.mp finished
    rw [← Except.ok.inj finished]
    rfl
  content draft := (layout_requires.concludes draft).content

/-- Footers are read back, and reading them does not look behind them. -/
theorem Footer.codec_lawful : codec.Lawful := Layout.Lawful.codec_lawful layout_lawful

end ParquetFooter.Record
