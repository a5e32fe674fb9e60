import ParquetFooter.Proofs.Framing.Load

/-! # Metadata in a file are found again

Storing metadata puts their bytes, the length of these bytes and the magic bytes behind what a sink
has taken before. Whatever that was, even the end of another file, the metadata are loaded from the
whole content. Only metadata whose length does not fit into its four bytes are refused.
-/

namespace ParquetFooter

open Record Wire

/-- The length in front of the magic bytes is the length of the footer. -/
theorem footerLength_littleEndian (word : UInt32) :
    footerLength (littleEndian word ++ magic) = .ok word.toNat := by
  have length : (littleEndian word ++ magic).take 4 = littleEndian word := rfl
  have ending : (littleEndian word ++ magic).drop 4 = magic := rfl
  rw [footerLength, if_pos ending, length, ofLittleEndian_littleEndian]

namespace FileMetadata

/-- The end of a file with some metadata. -/
def ending (metadata : FileMetadata) : Bytes :=
  metadata.encode ++ littleEndian (UInt32.ofNat metadata.encode.length) ++ magic

variable {metadata : FileMetadata}

/-- A footer that is not too long is written whole, with its length and the magic bytes behind
it. -/
theorem store_growing (small : metadata.encode.length < 2 ^ 32) (content : Bytes) :
    metadata.store.run ⟨content, none⟩ =
      (.ok (metadata.encode.length + 8), ⟨content ++ metadata.ending, none⟩) := by
  have sized : ¬ UInt32.size ≤ metadata.encode.length := Nat.not_le_of_lt small
  unfold store ending
  simp only [if_neg sized, ← List.append_assoc]
  rfl

/-- The length of a footer that is too long is refused when the footer was written. -/
theorem store_refused (large : 2 ^ 32 ≤ metadata.encode.length) (content : Bytes) :
    metadata.store.run ⟨content, none⟩ =
      (.error (.defect (.footerLength metadata.encode.length)),
        ⟨content ++ metadata.encode, none⟩) := by
  have oversized : UInt32.size ≤ metadata.encode.length := large
  unfold store
  simp only [if_pos oversized]
  rfl

/-- An accepted footer within the bounds of the format is decoded from its bytes. -/
theorem decode_encode (accepted : ofRecord metadata.record = .ok metadata)
    (fits : Footer.codec.fits metadata.record) : decode metadata.encode = .ok metadata := by
  have own := Footer.decode_append fits []
  rw [List.append_nil] at own
  exact decode_eq_ok.mpr ⟨_, own, accepted⟩

/-- Metadata are loaded from every content that ends in what was written of them. -/
theorem load_ending (accepted : ofRecord metadata.record = .ok metadata)
    (fits : Footer.codec.fits metadata.record) (small : metadata.encode.length < 2 ^ 32)
    {source : ByteSource} {content : Bytes} (holds : source.Holds (content ++ metadata.ending)) :
    load source = .ok metadata := by
  have size : metadata.ending.length = trailerSize + metadata.encode.length := by
    rw [ending, List.length_append, List.length_append]
    change metadata.encode.length + 4 + 4 = 8 + _
    omega
  have whole : (content ++ metadata.ending).rtake (trailerSize + metadata.encode.length) =
      metadata.ending := by
    rw [(List.suffix_append content metadata.ending).rtake_eq (Nat.le_of_eq size.symm), ← size,
      List.rtake, Nat.sub_self, List.drop_zero]
  have trailer : (content ++ metadata.ending).rtake trailerSize =
      littleEndian (UInt32.ofNat metadata.encode.length) ++ magic := by
    rw [ending, List.append_assoc metadata.encode, ← List.append_assoc content]
    exact (List.suffix_append _ _).rtake_eq (Nat.le_refl 8)
  have inside : trailerSize + metadata.encode.length ≤ (content ++ metadata.ending).length := by
    rw [List.length_append]
    omega
  rw [load_of_long holds (Nat.le_of_add_right_le inside), trailer, footerLength_littleEndian,
    UInt32.toNat_ofNat_of_lt' small]
  dsimp only
  rw [if_neg (Nat.not_lt_of_le inside), whole, ending, List.append_assoc, List.take_left]
  exact decode_encode accepted fits

/-- The mixed footer, written by an application with a name of some length. -/
def attributed (length : Nat) : FileMetadata :=
  { sample with
    record := { Footer.sample with
      createdBy := some (String.ofList (List.replicate length 'a')) } }

/-- A name of so many letters takes so many bytes. -/
theorem length_name (length : Nat) :
    (Utf8.encode (String.ofList (List.replicate length 'a'))).length = length := by
  calc (Utf8.encode (String.ofList (List.replicate length 'a'))).length
      = length * 'a'.utf8Size := by
        simp [Utf8.encode, String.toByteArray_ofList, List.utf8Encode]
    _ = length := Nat.mul_one length

/-- The footer with a long name of its maker is within the bounds of the format. -/
theorem attributed_fits {length : Nat} (small : length < 2 ^ 64) :
    Footer.codec.fits (attributed length).record := by
  obtain ⟨schema, rowGroups, entries, -⟩ := (Footer.fits_iff _).mp Footer.sample_fits
  refine (Footer.fits_iff _).mpr ⟨schema, rowGroups, entries, ?_⟩
  rintro name ⟨⟩
  rwa [length_name]

/-- A footer takes no fewer bytes than the name in it. -/
theorem le_length_attributed (length : Nat) : length ≤ (attributed length).encode.length := by
  have value : (Codec.text.encode (String.ofList (List.replicate length 'a'))).length ≤
      (attributed length).encode.length :=
    Footer.layout.length_value_le (List.getLast_mem (List.cons_ne_nil _ _)) rfl
  rw [Codec.text, Codec.bytes, List.length_append, length_name] at value
  exact Nat.le_of_add_left_le value

/-- **Stored metadata are loaded.** Metadata of a record that is accepted and fits are stored behind
any content of a growing sink, as their bytes, the length of these in four bytes and the magic
bytes, and they are loaded from the whole content, in memory or in a file. Metadata of more bytes
than four bytes can count are refused. -/
theorem load_of_store {record : Footer} {metadata : FileMetadata}
    (accepted : ofRecord record = .ok metadata) (fits : Footer.codec.fits record)
    (content : Bytes) :
    (metadata.encode.length < 2 ^ 32 →
      metadata.store.run ⟨content, none⟩ =
        (.ok (metadata.encode.length + 8), ⟨content ++ metadata.ending, none⟩) ∧
      load (.memory (content ++ metadata.ending)) = .ok metadata ∧
      load (.file (content ++ metadata.ending)) = .ok metadata) ∧
    (2 ^ 32 ≤ metadata.encode.length →
      (metadata.store.run ⟨content, none⟩).1 =
        .error (.defect (.footerLength metadata.encode.length))) := by
  obtain ⟨root, schema, -, -, -, rfl⟩ := ofRecord_eq_ok.mp accepted
  refine ⟨fun small => ⟨store_growing small content, ?_, ?_⟩, fun large => ?_⟩
  · exact load_ending accepted fits small (ByteSource.memory_holds _)
  · exact load_ending accepted fits small (ByteSource.file_holds _)
  · rw [store_refused large]

/-- The mixed footer is stored behind the magic bytes; with a name of too many bytes it is not. -/
theorem load_of_store_sample :
    (sample.encode.length < 2 ^ 32 ∧
      sample.store.run ⟨magic, none⟩ =
        (.ok (sample.encode.length + 8), ⟨magic ++ sample.ending, none⟩) ∧
      load (.memory (magic ++ sample.ending)) = .ok sample ∧
      load (.file (magic ++ sample.ending)) = .ok sample) ∧
    (2 ^ 32 ≤ (attributed (2 ^ 32)).encode.length ∧
      ((attributed (2 ^ 32)).store.run ⟨magic, none⟩).1 =
        .error (.defect (.footerLength (attributed (2 ^ 32)).encode.length))) := by
  have small : sample.encode.length < 2 ^ 32 := by decide +kernel
  have large := le_length_attributed (2 ^ 32)
  have fits : Footer.codec.fits (attributed (2 ^ 32)).record := attributed_fits (by decide)
  exact ⟨⟨small, (load_of_store ofRecord_sample Footer.sample_fits magic).1 small⟩,
    large, (load_of_store rfl fits magic).2 large⟩

end FileMetadata

end ParquetFooter
