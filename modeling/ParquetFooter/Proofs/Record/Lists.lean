import ParquetFooter.Proofs.Record.RoundTrip

/-! # Lists are read back

The size in front of a list is written with 64 bits and read with 31. Within 31 bits every list
comes back from its bytes, element by element, whatever its elements are written as: as single
bytes, as integers, as texts, as the codes of an enumeration or as records.
-/

namespace ParquetFooter

open Wire

namespace Wire.Codec

variable {α : Type}

/-- Every list of fewer than `2 ^ 31` values, each of which is within the bounds of the format, is
read back. -/
def ReadsLists (codec : Codec α) : Prop :=
  ∀ values : List α, values.length < 2 ^ 31 → (∀ value ∈ values, codec.fits value) →
    Reader.Reads (list codec).read ((list codec).encode values) values

/-- A lawful codec reads lists back as far as they can be counted. -/
theorem Lawful.readsLists {codec : Codec α} (lawful : codec.Lawful) : codec.ReadsLists :=
  fun _ short each => (list_lawful lawful).read_encode ⟨short, each⟩

end Wire.Codec

namespace Record

open Codec

/-- **Lists are read back.** The header of a list of any size that a writer can count is read with
its element type, and with its size exactly when that fits into 31 bits; a size whose bit 31 is set
is refused as a negative one, and of any other the lowest 32 bits are read. Lists of fewer than
`2 ^ 31` truth values, integers of any width, texts, values of an enumeration, or keys and values
are read back, and exactly their bytes are taken. The bounds of the elements only concern texts:
they have fewer than `2 ^ 64` bytes. -/
theorem lists_are_read_back :
    (∀ (type : ElementType) (size : Nat), size < 2 ^ 64 → ∀ rest,
      (ListHeader.read (ListHeader.encode type size ++ rest) =
        if size.testBit 31 then .error (.defect (.listSize (Int32.ofNat size)))
        else .ok (⟨type, size % 2 ^ 32⟩, rest)) ∧
      (ListHeader.read (ListHeader.encode type size ++ rest) = .ok (⟨type, size⟩, rest) ↔
        size < 2 ^ 31)) ∧
    bool.ReadsLists ∧ int8.ReadsLists ∧ int16.ReadsLists ∧ int32.ReadsLists ∧ int64.ReadsLists ∧
    text.ReadsLists ∧
    (enumeration PhysicalType).ReadsLists ∧ (enumeration Repetition).ReadsLists ∧
    (enumeration Encoding).ReadsLists ∧ (enumeration Compression).ReadsLists ∧
    KeyValue.codec.ReadsLists := by
  refine ⟨fun type size bound rest => ⟨?_, ListHeader.read_encode_eq_ok_iff type bound rest⟩,
    bool_lawful.readsLists, int8_lawful.readsLists, int16_lawful.readsLists,
    int32_lawful.readsLists, int64_lawful.readsLists, text_lawful.readsLists,
    (enumeration_lawful PhysicalType).readsLists, (enumeration_lawful Repetition).readsLists,
    (enumeration_lawful Encoding).readsLists, (enumeration_lawful Compression).readsLists,
    KeyValue.codec_lawful.readsLists⟩
  exact (ListHeader.spells_encode type size).run bound rest

/-- A size of 31 bits comes back, one more is taken for the lowest negative number, and of a size
past 32 bits the rest is left. Sixteen truth values, two texts and two entries are read back. -/
theorem lists_are_read_back_sample :
    (20 < 2 ^ 64 ∧ 20 < 2 ^ 31 ∧
      ListHeader.read (ListHeader.encode .int32 20 ++ [0xFF]) = .ok (⟨.int32, 20⟩, [0xFF])) ∧
    (2 ^ 31 < 2 ^ 64 ∧ ListHeader.read (ListHeader.encode .int32 (2 ^ 31) ++ [0xFF]) =
      .error (.defect (.listSize Int32.minValue))) ∧
    (2 ^ 32 + 20 < 2 ^ 64 ∧ ListHeader.read (ListHeader.encode .int32 (2 ^ 32 + 20) ++ [0xFF]) =
      .ok (⟨.int32, 20⟩, [0xFF])) ∧
    ((false :: List.replicate 15 true).length < 2 ^ 31 ∧
      Reader.Reads (list bool).read ((list bool).encode (false :: List.replicate 15 true))
        (false :: List.replicate 15 true)) ∧
    ((∀ name ∈ ["", "größe"], text.fits name) ∧
      Reader.Reads (list text).read ((list text).encode ["", "größe"]) ["", "größe"]) ∧
    ((∀ entry ∈ [⟨"key", none⟩, ⟨"", some "value"⟩], KeyValue.codec.fits entry) ∧
      Reader.Reads (list KeyValue.codec).read
        ((list KeyValue.codec).encode [⟨"key", none⟩, ⟨"", some "value"⟩])
        [⟨"key", none⟩, ⟨"", some "value"⟩]) := by
  obtain ⟨headers, bools, -, -, -, -, texts, -, -, -, -, entries⟩ := lists_are_read_back
  have names : ∀ name ∈ ["", "größe"], text.fits name := by
    change ∀ name ∈ ["", "größe"], (Utf8.encode name).length < 2 ^ 64
    decide
  have bounded : ∀ entry ∈ [⟨"key", none⟩, ⟨"", some "value"⟩], KeyValue.codec.fits entry := by
    simp [KeyValue.fits_iff]
    decide
  exact ⟨⟨by decide, by decide, (headers .int32 20 (by decide) [0xFF]).2.mpr (by decide)⟩,
    ⟨by decide, (headers .int32 (2 ^ 31) (by decide) [0xFF]).1⟩,
    ⟨by decide, (headers .int32 (2 ^ 32 + 20) (by decide) [0xFF]).1⟩,
    ⟨by decide, bools _ (by decide) fun _ _ => trivial⟩,
    ⟨names, texts _ (by decide) names⟩, bounded, entries _ (by decide) bounded⟩

end Record

end ParquetFooter
