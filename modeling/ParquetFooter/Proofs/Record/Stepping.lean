import ParquetFooter.Proofs.Record.RoundTrip
import ParquetFooter.Proofs.Wire.Stepping

/-! # Records are stepped over

The record types of a footer announce all that they write, in every field and in front of every
list. They nest nine levels deep at most, far less than skipping allows, so a reader to whom a
record is unknown finds its end.
-/

namespace ParquetFooter.Record

open Wire

/-- Statistics announce their fields, none of which nests. -/
theorem Statistics.codec_announced : codec.Announced 2 := by
  apply Layout.Lawful.codec_announced layout_lawful
  simp +instances only [layout, List.forall_mem_cons]
  exact ⟨Codec.bytes_announced, Codec.bytes_announced, Codec.int64_announced,
    Codec.int64_announced, Codec.bytes_announced, Codec.bytes_announced, List.forall_mem_nil _⟩

theorem KeyValue.codec_announced : codec.Announced 2 := by
  apply Layout.Lawful.codec_announced layout_lawful
  simp +instances only [layout, List.forall_mem_cons]
  exact ⟨Codec.text_announced, Codec.text_announced, List.forall_mem_nil _⟩

/-- A schema element announces its fields, none of which nests. -/
theorem SchemaElement.codec_announced : codec.Announced 2 := by
  apply Layout.Lawful.codec_announced layout_lawful
  simp +instances only [layout, List.forall_mem_cons]
  exact ⟨Codec.enumeration_announced PhysicalType, Codec.int32_announced,
    Codec.enumeration_announced Repetition, Codec.text_announced, Codec.int32_announced,
    Codec.int32_announced, List.forall_mem_nil _⟩

/-- Column metadata nest two levels deeper than an entry or statistics in them. -/
theorem ColumnMetadata.codec_announced : codec.Announced 4 := by
  apply Layout.Lawful.codec_announced layout_lawful
  simp +instances only [layout, List.forall_mem_cons]
  exact ⟨(Codec.enumeration_announced PhysicalType).mono (by decide),
    (Codec.list_announced (Codec.enumeration_announced Encoding)).mono (by decide),
    (Codec.list_announced Codec.text_announced).mono (by decide),
    (Codec.enumeration_announced Compression).mono (by decide),
    Codec.int64_announced.mono (by decide), Codec.int64_announced.mono (by decide),
    Codec.int64_announced.mono (by decide), Codec.list_announced KeyValue.codec_announced,
    Codec.int64_announced.mono (by decide), Codec.int64_announced.mono (by decide),
    Codec.int64_announced.mono (by decide), Statistics.codec_announced.mono (by decide),
    List.forall_mem_nil _⟩

/-- Encrypted metadata are never written. -/
theorem ColumnChunk.encryptedMetadata_announced : encryptedMetadata.Announced 1 where
  element _ := rfl
  field _ value := nomatch value

/-- A column chunk nests one level deeper than its metadata. -/
theorem ColumnChunk.codec_announced : codec.Announced 5 := by
  apply Layout.Lawful.codec_announced layout_lawful
  simp +instances only [layout, List.forall_mem_cons]
  exact ⟨Codec.text_announced.mono (by decide), Codec.int64_announced.mono (by decide),
    ColumnMetadata.codec_announced, encryptedMetadata_announced.mono (by decide),
    List.forall_mem_nil _⟩

/-- A row group nests two levels deeper than its chunks, which are in a list. -/
theorem RowGroup.codec_announced : codec.Announced 7 := by
  apply Layout.Lawful.codec_announced layout_lawful
  simp +instances only [layout, List.forall_mem_cons]
  exact ⟨Codec.list_announced ColumnChunk.codec_announced, Codec.int64_announced.mono (by decide),
    Codec.int64_announced.mono (by decide), List.forall_mem_nil _⟩

/-- A footer nests two levels deeper than its row groups, which are in a list. -/
theorem Footer.codec_announced : codec.Announced 9 := by
  apply Layout.Lawful.codec_announced layout_lawful
  simp +instances only [layout, List.forall_mem_cons]
  exact ⟨Codec.int32_announced.mono (by decide),
    (Codec.list_announced SchemaElement.codec_announced).mono (by decide),
    Codec.int64_announced.mono (by decide), Codec.list_announced RowGroup.codec_announced,
    (Codec.list_announced KeyValue.codec_announced).mono (by decide),
    Codec.text_announced.mono (by decide), List.forall_mem_nil _⟩

/-- **Records are stepped over.** Stepping over a record goes by the types in its headers alone. For
every record whose sizes are within the bounds of the format it takes exactly the bytes of the
record, whatever follows them. -/
theorem records_are_skipped (rest : Bytes) :
    (∀ statistics, Statistics.codec.fits statistics →
      skip .struct (Statistics.codec.encode statistics ++ rest) = .ok ((), rest)) ∧
    (∀ entry, KeyValue.codec.fits entry →
      skip .struct (KeyValue.codec.encode entry ++ rest) = .ok ((), rest)) ∧
    (∀ element, SchemaElement.codec.fits element →
      skip .struct (SchemaElement.codec.encode element ++ rest) = .ok ((), rest)) ∧
    (∀ metadata, ColumnMetadata.codec.fits metadata →
      skip .struct (ColumnMetadata.codec.encode metadata ++ rest) = .ok ((), rest)) ∧
    (∀ chunk, ColumnChunk.codec.fits chunk →
      skip .struct (ColumnChunk.codec.encode chunk ++ rest) = .ok ((), rest)) ∧
    (∀ rowGroup, RowGroup.codec.fits rowGroup →
      skip .struct (RowGroup.codec.encode rowGroup ++ rest) = .ok ((), rest)) ∧
    (∀ footer, Footer.codec.fits footer →
      skip .struct (Footer.codec.encode footer ++ rest) = .ok ((), rest)) :=
  ⟨fun _ fits => Statistics.codec_announced.field (by decide) fits rest,
    fun _ fits => KeyValue.codec_announced.field (by decide) fits rest,
    fun _ fits => SchemaElement.codec_announced.field (by decide) fits rest,
    fun _ fits => ColumnMetadata.codec_announced.field (by decide) fits rest,
    fun _ fits => ColumnChunk.codec_announced.field (by decide) fits rest,
    fun _ fits => RowGroup.codec_announced.field (by decide) fits rest,
    fun _ fits => Footer.codec_announced.field (by decide) fits rest⟩

open Footer in
/-- The mixed footer is stepped over, and so is a record of each type that lies in it. -/
theorem records_are_skipped_sample :
    (Footer.codec.fits sample ∧
      skip .struct (Footer.codec.encode sample ++ [0xFF]) = .ok ((), [0xFF])) ∧
    (∃ element ∈ sample.schema, SchemaElement.codec.fits element ∧
      skip .struct (SchemaElement.codec.encode element ++ [0xFF]) = .ok ((), [0xFF])) ∧
    (∃ entries, sample.keyValueMetadata = some entries ∧ ∃ entry ∈ entries,
      KeyValue.codec.fits entry ∧
      skip .struct (KeyValue.codec.encode entry ++ [0xFF]) = .ok ((), [0xFF])) ∧
    ∃ rowGroup ∈ sample.rowGroups, RowGroup.codec.fits rowGroup ∧
      skip .struct (RowGroup.codec.encode rowGroup ++ [0xFF]) = .ok ((), [0xFF]) ∧
      ∃ chunk ∈ rowGroup.columns, ColumnChunk.codec.fits chunk ∧
        skip .struct (ColumnChunk.codec.encode chunk ++ [0xFF]) = .ok ((), [0xFF]) ∧
        ∃ metadata, chunk.metadata = some metadata ∧ ColumnMetadata.codec.fits metadata ∧
          skip .struct (ColumnMetadata.codec.encode metadata ++ [0xFF]) = .ok ((), [0xFF]) ∧
          ∃ statistics, metadata.statistics = some statistics ∧
            Statistics.codec.fits statistics ∧
            skip .struct (Statistics.codec.encode statistics ++ [0xFF]) = .ok ((), [0xFF]) := by
  obtain ⟨overStatistics, overEntry, overElement, overMetadata, overChunk, overRowGroup,
    overFooter⟩ := records_are_skipped [0xFF]
  obtain ⟨⟨-, elements⟩, ⟨-, rowGroups⟩, entries, -⟩ := (fits_iff sample).mp sample_fits
  have element := elements _ List.mem_cons_self
  have entry := (entries _ rfl).2 _ List.mem_cons_self
  have rowGroup := rowGroups _ List.mem_cons_self
  have chunk := ((RowGroup.fits_iff _).mp rowGroup).2 _ List.mem_cons_self
  have metadata := ((ColumnChunk.fits_iff _).mp chunk).2 _ rfl
  have statistics := ((ColumnMetadata.fits_iff _).mp metadata).2.2.2 _ rfl
  refine ⟨⟨sample_fits, overFooter _ sample_fits⟩,
    ⟨_, List.mem_cons_self, element, overElement _ element⟩,
    ⟨_, rfl, _, List.mem_cons_self, entry, overEntry _ entry⟩,
    _, List.mem_cons_self, rowGroup, overRowGroup _ rowGroup, ?_⟩
  refine ⟨_, List.mem_cons_self, chunk, overChunk _ chunk, _, rfl, metadata,
    overMetadata _ metadata, ?_⟩
  exact ⟨_, rfl, statistics, overStatistics _ statistics⟩

end ParquetFooter.Record
