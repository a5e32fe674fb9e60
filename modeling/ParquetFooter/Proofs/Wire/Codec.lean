import ParquetFooter.Proofs.Wire.Skip
import ParquetFooter.Wire.Codec

/-! # Lawful codecs

A codec is lawful when every value within the bounds of the format is read back from its bytes,
every value that is read keeps to these bounds, and reading streams. The plain codecs are lawful,
and the codec of a list is lawful when that of its elements is.
-/

namespace ParquetFooter

/-- The text of some bytes has these bytes. -/
theorem Utf8.encode_of_decode {bytes : Bytes} {text : String}
    (decoded : Utf8.decode bytes = .ok text) : Utf8.encode text = bytes := by
  rw [Utf8.decode] at decoded
  split at decoded
  next valid =>
    rw [← Except.ok.inj decoded]
    rfl
  next => cases decoded

/-- A code without a value is a fault of the content. -/
theorem Enumeration.content_of_ofCode {α : Type} [Enumeration α] {number : Int32} {fault : Fault}
    (refused : (Enumeration.ofCode number : Except Fault α) = .error fault) : fault.OfContent := by
  rw [Enumeration.ofCode] at refused
  split at refused
  · cases refused
  · exact Except.error.inj refused ▸ trivial

namespace Wire

/-- A byte string is read behind any bytes that spell its length. -/
theorem readBytes_of_spells {value number : Bytes} (spells : Vlq.Spells number value.length)
    (bound : value.length < 2 ^ 64) : Reader.Reads readBytes (number ++ value) value := by
  have body : Reader.Reads (Reader.take (UInt64.ofNat value.length).toNat) value value := by
    rw [UInt64.toNat_ofNat_of_lt' bound]
    exact Reader.Reads.take value
  exact (spells.reads bound).bind body

/-- A byte string with its length in front is read back. -/
theorem readBytes_encode {value : Bytes} (bound : value.length < 2 ^ 64) :
    Reader.Reads readBytes (Vlq.encode value.length ++ value) value :=
  readBytes_of_spells (Vlq.spells_encode _) bound

/-- The length of a byte string that was read fits into a word. -/
theorem length_lt_of_readBytes {input value rest : Bytes}
    (run : readBytes input = .ok (value, rest)) : value.length < 2 ^ 64 := by
  obtain ⟨word, middle, _, taken⟩ := Reader.bind_eq_ok.mp run
  rw [(Reader.take_eq_ok.mp taken).2]
  exact word.toNat_lt

namespace Codec

variable {α : Type}

/-- The laws that tie the two directions of a codec together. -/
structure Lawful (codec : Codec α) : Prop where
  /-- A field with such a value is not taken for the end of a record. -/
  wire_ne_stop : codec.wire ≠ .stop
  /-- A value within the bounds is read back. -/
  read_encode : ∀ {value}, codec.fits value →
    Reader.Reads codec.read (codec.encode value) value
  /-- A value that was read is within the bounds. -/
  fits_of_read : ∀ {input value rest}, codec.read input = .ok (value, rest) → codec.fits value
  /-- Reading does not look behind the value. -/
  streams : codec.read.Streams

/-- Truth values are read back from a byte. -/
theorem bool_lawful : bool.Lawful where
  wire_ne_stop := nofun
  read_encode := by
    intro value _ rest
    cases value <;> rfl
  fits_of_read _ := trivial
  streams := readBool_streams

/-- Bytes are read back as integers of 8 bits. -/
theorem int8_lawful : int8.Lawful where
  wire_ne_stop := nofun
  read_encode := fun {value} _ => (Reader.Reads.byte value.toUInt8).map UInt8.toInt8
  fits_of_read _ := trivial
  streams := Reader.Streams.byte.map UInt8.toInt8

theorem int16_lawful : int16.Lawful where
  wire_ne_stop := nofun
  read_encode _ := readInt16_encodeInt _
  fits_of_read _ := trivial
  streams := readInt16_streams

theorem int32_lawful : int32.Lawful where
  wire_ne_stop := nofun
  read_encode _ := readInt32_encodeInt _
  fits_of_read _ := trivial
  streams := readInt32_streams

theorem int64_lawful : int64.Lawful where
  wire_ne_stop := nofun
  read_encode _ := readInt64_encodeInt _
  fits_of_read _ := trivial
  streams := readInt64_streams

/-- Byte strings are read back where their length fits into 64 bits. -/
theorem bytes_lawful : bytes.Lawful where
  wire_ne_stop := nofun
  read_encode bound := readBytes_encode bound
  fits_of_read run := length_lt_of_readBytes run
  streams := readBytes_streams

/-- Texts are read back; no other bytes than those of a text are read as one. -/
theorem text_lawful : text.Lawful where
  wire_ne_stop := nofun
  read_encode := by
    intro value bound
    refine (readBytes_encode bound).bind_nil ?_
    rw [Utf8.decode_encode]
    exact Reader.Reads.pure value
  fits_of_read := by
    intro input value rest run
    obtain ⟨read, middle, taken, run⟩ := Reader.bind_eq_ok.mp run
    cases decoded : Utf8.decode read with
    | error fault => simp only [decoded, Reader.fail, reduceCtorEq] at run
    | ok text =>
        simp only [decoded] at run
        obtain ⟨rfl, rfl⟩ := Prod.mk.inj (Except.ok.inj run)
        change (Utf8.encode text).length < 2 ^ 64
        rw [Utf8.encode_of_decode decoded]
        exact length_lt_of_readBytes taken
  streams := by
    refine readBytes_streams.bind fun read => ?_
    cases Utf8.decode read with
    | error fault => exact .fail trivial
    | ok text => exact .pure text

/-- Values of an enumeration are read back from their codes. -/
theorem enumeration_lawful (α : Type) [Enumeration α] [LawfulEnumeration α] :
    (enumeration α).Lawful where
  wire_ne_stop := nofun
  read_encode := by
    intro value _
    refine (readInt32_encodeInt (Enumeration.code value)).bind_nil ?_
    rw [Enumeration.ofCode_code]
    exact Reader.Reads.pure value
  fits_of_read _ := trivial
  streams := readInt32_streams.bind fun _ => .ofExcept fun _ => Enumeration.content_of_ofCode

/-- Lists are lawful when their elements are. -/
theorem list_lawful {codec : Codec α} (lawful : codec.Lawful) : (list codec).Lawful where
  wire_ne_stop := nofun
  read_encode := by
    rintro values ⟨short, each⟩
    exact (ListHeader.read_encode codec.element short).bind (Reader.Reads.times
      fun value member => lawful.read_encode (each value member))
  fits_of_read := by
    intro input values rest run
    obtain ⟨header, middle, sized, run⟩ := Reader.bind_eq_ok.mp run
    refine ⟨?_, Reader.forall_mem_of_times lawful.fits_of_read run⟩
    rw [Reader.length_of_times run]
    exact ListHeader.size_lt_of_read sized
  streams := ListHeader.read_streams.bind fun header => lawful.streams.times header.size

end Codec

end Wire

end ParquetFooter
