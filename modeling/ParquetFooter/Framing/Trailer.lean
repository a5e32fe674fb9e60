import ParquetFooter.Framing.Loading
import ParquetFooter.Framing.Sink

/-!
# Footers in files

A file ends in its footer, the length of the footer in four bytes, lowest first, and four magic
bytes. `FileMetadata.store` writes that end and `FileMetadata.load` finds it, by the steps of
`FileMetadata.loading`. The reader looks at the last eight bytes and at the bytes of the footer
only. When the source is too short to hold them it says how many trailing bytes it needs, so that
the end of a file can be fetched in pieces.
-/

namespace ParquetFooter

/-- The last bytes of every file. -/
def magic : Bytes := [0x50, 0x41, 0x52, 0x31]

/-- The number of bytes behind a footer. -/
def trailerSize : Nat := 8

/-- The length of the footer in front of a trailer. -/
def footerLength (trailer : Bytes) : Except Fault Nat :=
  if trailer.drop 4 = magic then .ok (ofLittleEndian (trailer.take 4))
  else .error (.defect .trailer)

/-- Writes metadata as the end of a file and gives the number of bytes written. -/
def FileMetadata.store (metadata : FileMetadata) : Writing Nat := do
  let footer := metadata.encode
  Sink.write footer
  if UInt32.size ≤ footer.length then throw (.defect (.footerLength footer.length))
  Sink.write (littleEndian (UInt32.ofNat footer.length))
  Sink.write magic
  return footer.length + trailerSize

/-- The steps in which the metadata at the end of a source of some length are read. -/
def FileMetadata.loading (length : Nat) : Loading :=
  if length < trailerSize then .ends (.error (.fault (.needMoreData trailerSize)))
  else
    .difference length trailerSize fun start =>
    .readExactly start trailerSize fun trailer =>
      match footerLength trailer with
      | .error cause => .ends (.error (.fault cause))
      | .ok footer =>
        .sum trailerSize footer fun needed =>
          if length < needed then .ends (.error (.fault (.needMoreData needed)))
          else
            .difference length needed fun start =>
            .readRange start footer fun bytes => .ends (decode bytes)

/-- Reads the metadata at the end of a source. -/
def FileMetadata.load (source : ByteSource) : Except Failure FileMetadata :=
  (loading source.length).run source

end ParquetFooter
