import ParquetFooter.Framing.ByteSource
import ParquetFooter.Metadata.FileMetadata

/-!
# Loading step by step

What a reader does to a source, as a tree of steps: a computation with unsigned numbers of 64 bits,
or a request to the source, with what follows for every answer. `Loading.run` carries the steps out.
The steps say which numbers and requests there are before any source is asked.
-/

namespace ParquetFooter

/-- How loading goes on: it has come to an end, or it computes a number, or it makes a request to
the source, and goes on with the answer. -/
inductive Loading where
  | ends (outcome : Except Failure FileMetadata)
  | sum (left right : Nat) (next : Nat → Loading)
  | difference (whole part : Nat) (next : Nat → Loading)
  /-- Opens the source at an offset and fills a buffer. -/
  | readExactly (start count : Nat) (next : Bytes → Loading)
  | readRange (start count : Nat) (next : Bytes → Loading)

/-- What loading from a source comes to. -/
def Loading.run (source : ByteSource) : Loading → Except Failure FileMetadata
  | ends outcome => outcome
  | sum left right next => (next (left + right)).run source
  | difference whole part next => (next (whole - part)).run source
  | readExactly start count next => do
    let bytes ← source.readExactly start count
    (next bytes).run source
  | readRange start count next => do
    let bytes ← source.readRange start count
    (next bytes).run source

end ParquetFooter
