import ParquetFooter.Proofs.Record.RoundTrip
import ParquetFooter.Proofs.Wire.Length

/-! # Decoding does not amplify

The content of a record is the number of elements in its lists, at all levels, together with the
lengths of its texts and byte strings. No record has more content than bytes, and no bytes that are
accepted for a record are fewer than those that are written for it. So what a decoded footer holds
is bounded by what was read, and writing it again does not take more.
-/

namespace ParquetFooter.Record

open Wire

namespace Statistics

/-- What statistics hold: the lengths of their bounds. -/
def content (statistics : Statistics) : Nat :=
  optional List.length statistics.max + optional List.length statistics.min +
    optional List.length statistics.maxValue + optional List.length statistics.minValue

/-- Statistics take more bytes than their bounds have. -/
theorem codec_exceeds : codec.Exceeds content := by
  apply Layout.Lawful.codec_exceeds layout_lawful (by decide)
  intro statistics
  have max := Codec.bytes_exceeds.optional_le statistics.max
  have min := Codec.bytes_exceeds.optional_le statistics.min
  have maxValue := Codec.bytes_exceeds.optional_le statistics.maxValue
  have minValue := Codec.bytes_exceeds.optional_le statistics.minValue
  simp +instances only [Layout.cost, layout, List.map_cons, List.map_nil, List.sum_cons,
    List.sum_nil, RecordField.cost, content]
  omega

/-- No bytes that are read as statistics are fewer than those that are written for them. -/
theorem codec_shortest : codec.Shortest := by
  apply Layout.Lawful.codec_shortest layout_lawful (by decide)
  simp +instances only [layout, List.forall_mem_cons]
  exact ⟨Codec.bytes_shortest, Codec.bytes_shortest, Codec.int64_shortest, Codec.int64_shortest,
    Codec.bytes_shortest, Codec.bytes_shortest, List.forall_mem_nil _⟩

end Statistics

namespace KeyValue

/-- What an entry holds: the lengths of its key and its value. -/
def content (entry : KeyValue) : Nat :=
  entry.key.utf8ByteSize + optional String.utf8ByteSize entry.value

/-- An entry takes more bytes than its texts have. -/
theorem codec_exceeds : codec.Exceeds content := by
  apply Layout.Lawful.codec_exceeds layout_lawful (by decide)
  intro entry
  have key := Codec.text_exceeds entry.key
  have value := Codec.text_exceeds.optional_le entry.value
  simp +instances only [Layout.cost, layout, List.map_cons, List.map_nil, List.sum_cons,
    List.sum_nil, RecordField.cost, Option.elim_some, content]
  omega

/-- No bytes that are read as an entry are fewer than those that are written for it. -/
theorem codec_shortest : codec.Shortest := by
  apply Layout.Lawful.codec_shortest layout_lawful (by decide)
  simp +instances only [layout, List.forall_mem_cons]
  exact ⟨Codec.text_shortest, Codec.text_shortest, List.forall_mem_nil _⟩

end KeyValue

namespace SchemaElement

/-- What a schema element holds: the length of its name. -/
def content (element : SchemaElement) : Nat := element.name.utf8ByteSize

/-- A schema element takes more bytes than its name has. -/
theorem codec_exceeds : codec.Exceeds content := by
  apply Layout.Lawful.codec_exceeds layout_lawful (by decide)
  intro element
  have name := Codec.text_exceeds element.name
  simp +instances only [Layout.cost, layout, List.map_cons, List.map_nil, List.sum_cons,
    List.sum_nil, RecordField.cost, Option.elim_some, content]
  omega

/-- No bytes that are read as a schema element are fewer than those that are written for it. -/
theorem codec_shortest : codec.Shortest := by
  apply Layout.Lawful.codec_shortest layout_lawful (by decide)
  simp +instances only [layout, List.forall_mem_cons]
  exact ⟨Codec.enumeration_shortest PhysicalType, Codec.int32_shortest,
    Codec.enumeration_shortest Repetition, Codec.text_shortest, Codec.int32_shortest,
    Codec.int32_shortest, List.forall_mem_nil _⟩

end SchemaElement

namespace ColumnMetadata

/-- What column metadata hold: the numbers of encodings, names and entries, and what is in these and
in the statistics. -/
def content (metadata : ColumnMetadata) : Nat :=
  metadata.encodings.length + listed String.utf8ByteSize metadata.pathInSchema +
    optional (listed KeyValue.content) metadata.keyValueMetadata +
    optional Statistics.content metadata.statistics

/-- Column metadata take more bytes than they hold. -/
theorem codec_exceeds : codec.Exceeds content := by
  apply Layout.Lawful.codec_exceeds layout_lawful (by decide)
  intro metadata
  have encodings : metadata.encodings.length <
      ((Codec.list (.enumeration Encoding)).encode metadata.encodings).length :=
    Nat.lt_of_le_of_lt (Nat.le_add_right _ _)
      (Codec.list_exceeds (Codec.enumeration_exceeds Encoding) metadata.encodings)
  have path := Codec.list_exceeds Codec.text_exceeds metadata.pathInSchema
  have entries := (Codec.list_exceeds KeyValue.codec_exceeds).optional_le metadata.keyValueMetadata
  have statistics := Statistics.codec_exceeds.optional_le metadata.statistics
  simp +instances only [Layout.cost, layout, List.map_cons, List.map_nil, List.sum_cons,
    List.sum_nil, RecordField.cost, Option.elim_some, content]
  omega

/-- No bytes that are read as column metadata are fewer than those that are written for them. -/
theorem codec_shortest : codec.Shortest := by
  apply Layout.Lawful.codec_shortest layout_lawful (by decide)
  simp +instances only [layout, List.forall_mem_cons]
  exact ⟨Codec.enumeration_shortest PhysicalType,
    Codec.list_shortest (Codec.enumeration_shortest Encoding),
    Codec.list_shortest Codec.text_shortest, Codec.enumeration_shortest Compression,
    Codec.int64_shortest, Codec.int64_shortest, Codec.int64_shortest,
    Codec.list_shortest KeyValue.codec_shortest, Codec.int64_shortest, Codec.int64_shortest,
    Codec.int64_shortest, Statistics.codec_shortest, List.forall_mem_nil _⟩

end ColumnMetadata

namespace ColumnChunk

/-- What a column chunk holds: the length of its path, and what is in its metadata. -/
def content (chunk : ColumnChunk) : Nat :=
  optional String.utf8ByteSize chunk.filePath + optional ColumnMetadata.content chunk.metadata

/-- A column chunk takes more bytes than it holds. -/
theorem codec_exceeds : codec.Exceeds content := by
  apply Layout.Lawful.codec_exceeds layout_lawful (by decide)
  intro chunk
  have path := Codec.text_exceeds.optional_le chunk.filePath
  have metadata := ColumnMetadata.codec_exceeds.optional_le chunk.metadata
  simp +instances only [Layout.cost, layout, List.map_cons, List.map_nil, List.sum_cons,
    List.sum_nil, RecordField.cost, Option.elim_some, content]
  omega

/-- There are no encrypted metadata to write. -/
theorem encryptedMetadata_shortest : encryptedMetadata.Shortest :=
  fun _ value => nomatch value

/-- No bytes that are read as a column chunk are fewer than those that are written for it. -/
theorem codec_shortest : codec.Shortest := by
  apply Layout.Lawful.codec_shortest layout_lawful (by decide)
  simp +instances only [layout, List.forall_mem_cons]
  exact ⟨Codec.text_shortest, Codec.int64_shortest, ColumnMetadata.codec_shortest,
    encryptedMetadata_shortest, List.forall_mem_nil _⟩

end ColumnChunk

namespace RowGroup

/-- What a row group holds: the number of its chunks, and what is in them. -/
def content (rowGroup : RowGroup) : Nat := listed ColumnChunk.content rowGroup.columns

/-- A row group takes more bytes than it holds. -/
theorem codec_exceeds : codec.Exceeds content := by
  apply Layout.Lawful.codec_exceeds layout_lawful (by decide)
  intro rowGroup
  have columns := Codec.list_exceeds ColumnChunk.codec_exceeds rowGroup.columns
  simp +instances only [Layout.cost, layout, List.map_cons, List.map_nil, List.sum_cons,
    List.sum_nil, RecordField.cost, Option.elim_some, content]
  omega

/-- No bytes that are read as a row group are fewer than those that are written for it. -/
theorem codec_shortest : codec.Shortest := by
  apply Layout.Lawful.codec_shortest layout_lawful (by decide)
  simp +instances only [layout, List.forall_mem_cons]
  exact ⟨Codec.list_shortest ColumnChunk.codec_shortest, Codec.int64_shortest, Codec.int64_shortest,
    List.forall_mem_nil _⟩

end RowGroup

namespace Footer

/-- What a footer holds: the numbers of its schema elements, row groups and entries, what is in
these, and the length of the name of its maker. -/
def content (footer : Footer) : Nat :=
  listed SchemaElement.content footer.schema + listed RowGroup.content footer.rowGroups +
    optional (listed KeyValue.content) footer.keyValueMetadata +
    optional String.utf8ByteSize footer.createdBy

/-- A footer takes more bytes than it holds. -/
theorem codec_exceeds : codec.Exceeds content := by
  apply Layout.Lawful.codec_exceeds layout_lawful (by decide)
  intro footer
  have schema := Codec.list_exceeds SchemaElement.codec_exceeds footer.schema
  have rowGroups := Codec.list_exceeds RowGroup.codec_exceeds footer.rowGroups
  have entries := (Codec.list_exceeds KeyValue.codec_exceeds).optional_le footer.keyValueMetadata
  have createdBy := Codec.text_exceeds.optional_le footer.createdBy
  simp +instances only [Layout.cost, layout, List.map_cons, List.map_nil, List.sum_cons,
    List.sum_nil, RecordField.cost, Option.elim_some, content]
  omega

/-- No bytes that are read as a footer are fewer than those that are written for it. -/
theorem codec_shortest : codec.Shortest := by
  apply Layout.Lawful.codec_shortest layout_lawful (by decide)
  simp +instances only [layout, List.forall_mem_cons]
  exact ⟨Codec.int32_shortest, Codec.list_shortest SchemaElement.codec_shortest,
    Codec.int64_shortest, Codec.list_shortest RowGroup.codec_shortest,
    Codec.list_shortest KeyValue.codec_shortest, Codec.text_shortest, List.forall_mem_nil _⟩

/-- A decoded footer takes no more bytes than there are, and writing it takes no more either. -/
theorem decode_takes {bytes : Bytes} {footer : Footer} {length : Nat}
    (decoded : decode bytes = .ok (footer, length)) :
    length ≤ bytes.length ∧ footer.encode.length ≤ length := by
  obtain ⟨rest, read, rfl⟩ := decode_eq_ok.mp decoded
  have taken := codec_shortest read
  change footer.encode.length + rest.length ≤ bytes.length at taken
  omega

/-- **Decoding does not amplify.** A footer that is decoded from any bytes takes no more than there
are, its content is no more than it takes, and writing it again takes no more either: what is
written for it is decoded as it, and no bytes that are decoded as it are fewer. -/
theorem decode_shortest {bytes : Bytes} {footer : Footer} {length : Nat}
    (decoded : decode bytes = .ok (footer, length)) :
    length ≤ bytes.length ∧ footer.encode.length ≤ length ∧ footer.content ≤ length ∧
      decode footer.encode = .ok (footer, footer.encode.length) ∧
      ∀ other taken, decode other = .ok (footer, taken) →
        footer.encode.length ≤ taken ∧ taken ≤ other.length := by
  obtain ⟨inside, shortest⟩ := decode_takes decoded
  have fewer : footer.content < footer.encode.length := codec_exceeds footer
  have own := decode_append (fits_of_decode decoded) []
  rw [List.append_nil] at own
  refine ⟨inside, shortest, by omega, own, ?_⟩
  intro other taken accepted
  exact (decode_takes accepted).symm

/-- A footer with one group without children, written with a version in two groups of bits, a list
header in the long form and a creator that is given twice. -/
def wastefulBytes : Bytes :=
  [0x15, 0x82, 0x00, 0x19, 0xFC, 0x01, 0x48, 0x02, 0x61, 0x62, 0x00, 0x16, 0x00, 0x19, 0x0C,
    0x28, 0x02, 0x68, 0x69, 0x08, 0x0C, 0x01, 0x78, 0x00, 0xFF]

/-- Of 25 bytes 24 are taken; 17 are needed, and 4 are content. -/
theorem decode_shortest_sample :
    let footer : Footer :=
      ⟨1, [⟨none, none, none, "ab", none, none⟩], 0, [], none, some "x"⟩
    decode wastefulBytes = .ok (footer, 24) ∧ footer.encode.length = 17 ∧ footer.content = 4 ∧
      24 ≤ wastefulBytes.length ∧ footer.encode.length ≤ 24 ∧ footer.content ≤ 24 ∧
      decode footer.encode = .ok (footer, footer.encode.length) ∧
      ∀ other taken, decode other = .ok (footer, taken) →
        footer.encode.length ≤ taken ∧ taken ≤ other.length :=
  ⟨rfl, by decide +kernel, rfl, decode_shortest rfl⟩

end Footer

end ParquetFooter.Record
