import ParquetFooter.Proofs.Record.Lawful
import ParquetFooter.Framing.Sink

/-! # Footers are read back

A footer fits when every list in it, at any depth, has fewer than `2 ^ 31` elements and every text
and byte string in it has a length below `2 ^ 64`. The equivalences spell this out, record by
record. A footer that fits is read back from its bytes, whatever follows them, and a footer that was
read fits.
-/

namespace ParquetFooter.Record

open Wire

/-- The bounds of an optional list of keys and values. -/
def KeyValue.AllFit (entries? : Option (List KeyValue)) : Prop :=
  ∀ entries, entries? = some entries →
    entries.length < 2 ^ 31 ∧ ∀ entry ∈ entries, KeyValue.codec.fits entry

/-- Statistics are within the bounds when their byte strings are. -/
theorem Statistics.fits_iff (statistics : Statistics) :
    codec.fits statistics ↔
      (∀ bytes, statistics.max = some bytes → bytes.length < 2 ^ 64) ∧
      (∀ bytes, statistics.min = some bytes → bytes.length < 2 ^ 64) ∧
      (∀ bytes, statistics.maxValue = some bytes → bytes.length < 2 ^ 64) ∧
      (∀ bytes, statistics.minValue = some bytes → bytes.length < 2 ^ 64) := by
  simp +instances [codec, Layout.codec, Layout.fits, layout, Codec.bytes, Codec.int64]

/-- An entry is within the bounds when its texts are. -/
theorem KeyValue.fits_iff (entry : KeyValue) :
    codec.fits entry ↔
      (Utf8.encode entry.key).length < 2 ^ 64 ∧
      (∀ value, entry.value = some value → (Utf8.encode value).length < 2 ^ 64) := by
  simp +instances [codec, Layout.codec, Layout.fits, layout, Codec.text, Codec.bytes]

/-- A schema element is within the bounds when its name is. -/
theorem SchemaElement.fits_iff (element : SchemaElement) :
    codec.fits element ↔ (Utf8.encode element.name).length < 2 ^ 64 := by
  simp +instances [codec, Layout.codec, Layout.fits, layout, Codec.text, Codec.bytes, Codec.int32,
    Codec.enumeration]

/-- Column metadata are within the bounds when their lists are short and what is in these fits. -/
theorem ColumnMetadata.fits_iff (metadata : ColumnMetadata) :
    codec.fits metadata ↔
      metadata.encodings.length < 2 ^ 31 ∧
      (metadata.pathInSchema.length < 2 ^ 31 ∧
        ∀ name ∈ metadata.pathInSchema, (Utf8.encode name).length < 2 ^ 64) ∧
      KeyValue.AllFit metadata.keyValueMetadata ∧
      (∀ statistics, metadata.statistics = some statistics →
        Statistics.codec.fits statistics) := by
  simp +instances [codec, Layout.codec, Layout.fits, layout, KeyValue.AllFit, Codec.list,
    Codec.text, Codec.bytes, Codec.int64, Codec.enumeration, Int32.size, UInt64.size]

/-- A column chunk is within the bounds when its path and its metadata are. -/
theorem ColumnChunk.fits_iff (chunk : ColumnChunk) :
    codec.fits chunk ↔
      (∀ path, chunk.filePath = some path → (Utf8.encode path).length < 2 ^ 64) ∧
      (∀ metadata, chunk.metadata = some metadata → ColumnMetadata.codec.fits metadata) := by
  simp +instances [codec, Layout.codec, Layout.fits, layout, Codec.text, Codec.bytes, Codec.int64]

/-- A row group is within the bounds when its chunks can be counted and each fits. -/
theorem RowGroup.fits_iff (rowGroup : RowGroup) :
    codec.fits rowGroup ↔
      rowGroup.columns.length < 2 ^ 31 ∧
      ∀ chunk ∈ rowGroup.columns, ColumnChunk.codec.fits chunk := by
  simp +instances [codec, Layout.codec, Layout.fits, layout, Codec.list, Codec.int64,
    Int32.size]

/-- A footer is within the bounds when its lists can be counted and what is in them fits. -/
theorem Footer.fits_iff (footer : Footer) :
    codec.fits footer ↔
      (footer.schema.length < 2 ^ 31 ∧
        ∀ element ∈ footer.schema, SchemaElement.codec.fits element) ∧
      (footer.rowGroups.length < 2 ^ 31 ∧
        ∀ rowGroup ∈ footer.rowGroups, RowGroup.codec.fits rowGroup) ∧
      KeyValue.AllFit footer.keyValueMetadata ∧
      (∀ name, footer.createdBy = some name → (Utf8.encode name).length < 2 ^ 64) := by
  simp +instances [codec, Layout.codec, Layout.fits, layout, KeyValue.AllFit, Codec.list,
    Codec.text, Codec.bytes, Codec.int32, Codec.int64, Int32.size, UInt64.size]

namespace Footer

/-- A footer is decoded when it is read off the bytes; its length is what was taken. -/
theorem decode_eq_ok {bytes : Bytes} {footer : Footer} {length : Nat} :
    decode bytes = .ok (footer, length) ↔
      ∃ rest, codec.read bytes = .ok (footer, rest) ∧ length = bytes.length - rest.length := by
  rw [decode]
  cases run : codec.read bytes with
  | error fault => exact ⟨nofun, nofun⟩
  | ok result =>
      constructor
      · intro decoded
        obtain ⟨rfl, rfl⟩ := Prod.mk.inj (Except.ok.inj decoded)
        exact ⟨result.2, rfl, rfl⟩
      · rintro ⟨rest, ⟨⟩, rfl⟩
        rfl

/-- The bytes of a footer are read as that footer, and no byte behind them is taken. -/
theorem decode_append {footer : Footer} (fits : codec.fits footer) (rest : Bytes) :
    decode (footer.encode ++ rest) = .ok (footer, footer.encode.length) := by
  refine decode_eq_ok.mpr ⟨rest, codec_lawful.read_encode fits rest, ?_⟩
  rw [List.length_append, Nat.add_sub_cancel]

/-- What is decoded is within the bounds. -/
theorem fits_of_decode {bytes : Bytes} {footer : Footer} {length : Nat}
    (decoded : decode bytes = .ok (footer, length)) : codec.fits footer := by
  obtain ⟨rest, read, _⟩ := decode_eq_ok.mp decoded
  exact codec_lawful.fits_of_read read

/-- The number of bytes that a footer takes is the length of a prefix, and from this prefix the
footer is decoded whatever follows. -/
theorem exists_taken_of_decode {bytes : Bytes} {footer : Footer} {length : Nat}
    (decoded : decode bytes = .ok (footer, length)) :
    ∃ taken rest, bytes = taken ++ rest ∧ taken.length = length ∧
      ∀ more, decode (taken ++ more) = .ok (footer, length) := by
  obtain ⟨rest, read, rfl⟩ := decode_eq_ok.mp decoded
  obtain ⟨taken, rfl, reads⟩ := codec_lawful.streams.ok read
  have counted (others : Bytes) : (taken ++ others).length - others.length = taken.length := by
    rw [List.length_append, Nat.add_sub_cancel]
  refine ⟨taken, rest, rfl, (counted rest).symm, fun more => ?_⟩
  exact decode_eq_ok.mpr ⟨more, reads more, (counted rest).trans (counted more).symm⟩

/-- A footer of one column chunk, whose optional fields are set in a mixed pattern. -/
def sample : Footer where
  version := 2
  schema := [⟨none, none, none, "root", some 1, none⟩,
    ⟨some .fixedLenByteArray, some 16, some .optional, "größe", none, some (-7)⟩]
  numRows := -1
  rowGroups := [{
    columns := [{
      filePath := some "part-0"
      fileOffset := 1000
      metadata := some {
        type := .fixedLenByteArray
        encodings := List.replicate 15 .rle
        pathInSchema := ["größe"]
        compression := .zstd
        numValues := 300
        totalUncompressedSize := Int64.maxValue
        totalCompressedSize := Int64.minValue
        keyValueMetadata := some []
        dataPageOffset := 4
        indexPageOffset := none
        dictionaryPageOffset := some 0
        statistics := some ⟨none, some [], some 0, none, some [255], none⟩ } }]
    totalByteSize := 5
    numRows := 6 }]
  keyValueMetadata := some [⟨"key", none⟩, ⟨"", some "value"⟩]
  createdBy := none

/-- The mixed footer is within the bounds. -/
theorem sample_fits : codec.fits sample := by
  simp [fits_iff, RowGroup.fits_iff, ColumnChunk.fits_iff, ColumnMetadata.fits_iff,
    KeyValue.AllFit, KeyValue.fits_iff, SchemaElement.fits_iff, Statistics.fits_iff, sample]
  decide

/-- A footer without schema, row groups or rows that was written in another way: the version in two
groups, and with a boolean field of a later version of the format. -/
def foreignBytes : Bytes :=
  [0x15, 0x82, 0x00, 0x19, 0x0C, 0x16, 0x00, 0x19, 0x0C, 0x31, 0x00, 0xFF]

/-- **Footers are read back.** Writing a footer whose sizes are within the bounds of the format to a
growing sink succeeds, and whatever follows the bytes written, exactly these are read, as that
footer. So the bytes of one footer never begin those of another, and a footer that was decoded from
any bytes at all is decoded again from its own. -/
theorem decode_encode_append :
    (∀ footer, codec.fits footer →
      ∃ written, (Sink.write footer.encode).run Sink.growing = (.ok (), ⟨written, none⟩) ∧
        ∀ rest, decode (written ++ rest) = .ok (footer, written.length)) ∧
    (∀ footer other, codec.fits footer → codec.fits other → footer.encode <+: other.encode →
      footer = other) ∧
    (∀ bytes footer length, decode bytes = .ok (footer, length) →
      decode footer.encode = .ok (footer, footer.encode.length)) := by
  refine ⟨fun footer fits => ⟨footer.encode, rfl, decode_append fits⟩, ?_, ?_⟩
  · rintro footer other fits otherFits ⟨tail, whole⟩
    have short := decode_append fits tail
    have long := decode_append otherFits []
    rw [whole] at short
    rw [List.append_nil, short] at long
    exact congrArg Prod.fst (Except.ok.inj long)
  · intro bytes footer length decoded
    have own := decode_append (fits_of_decode decoded) []
    rwa [List.append_nil] at own

/-- The mixed footer is read back, and so is the one that was decoded from foreign bytes. -/
theorem decode_encode_append_sample :
    (codec.fits sample ∧
      ∃ written, (Sink.write sample.encode).run Sink.growing = (.ok (), ⟨written, none⟩) ∧
        ∀ rest, decode (written ++ rest) = .ok (sample, written.length)) ∧
    (sample.encode <+: sample.encode ∧ sample = sample) ∧
    (decode foreignBytes = .ok (⟨1, [], 0, [], none, none⟩, 11) ∧
      decode (encode ⟨1, [], 0, [], none, none⟩) =
        .ok (⟨1, [], 0, [], none, none⟩, (encode ⟨1, [], 0, [], none, none⟩).length)) :=
  ⟨⟨sample_fits, decode_encode_append.1 sample sample_fits⟩,
    ⟨List.prefix_rfl,
      decode_encode_append.2.1 sample sample sample_fits sample_fits List.prefix_rfl⟩,
    ⟨rfl, decode_encode_append.2.2 foreignBytes ⟨1, [], 0, [], none, none⟩ 11 rfl⟩⟩

end Footer

end ParquetFooter.Record
