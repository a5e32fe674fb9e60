import ParquetFooter.Fault
import ParquetFooter.Bytes

/-!
# Byte sources

Where the bytes of a file come from. A source knows its length, gives what follows an offset, and
gives a range. Bytes held in memory are checked against their length before anything is read. A file
can be opened behind its end, where it has nothing, and a range of it is checked by the number of
bytes that came.
-/

namespace ParquetFooter

/-- Gives the bytes of a file. -/
structure ByteSource where
  /-- The number of bytes. -/
  length : Nat
  /-- The bytes from an offset on. -/
  readFrom : (start : Nat) → Except Fault Bytes
  /-- A number of bytes from an offset on. -/
  readRange : (start count : Nat) → Except Fault Bytes

namespace ByteSource

/-- A source that holds its content in memory. -/
def memory (content : Bytes) : ByteSource where
  length := content.length
  readFrom start :=
    if content.length < start then .error (.shortfall (.offset start content.length))
    else .ok (content.drop start)
  readRange start count :=
    if content.length < start + count then
      .error (.shortfall (.range count start content.length))
    else .ok ((content.drop start).take count)

/-- A file with some content. -/
def file (content : Bytes) : ByteSource where
  length := content.length
  readFrom start := .ok (content.drop start)
  readRange start count :=
    let read := (content.drop start).take count
    if read.length = count then .ok read else .error (.shortfall (.file count read.length))

/-- Exactly `count` bytes of what follows an offset. -/
def readExactly (source : ByteSource) (start count : Nat) : Except Fault Bytes := do
  let following ← source.readFrom start
  let read := following.take count
  if read.length = count then return read else .error (.foreign .sourceShort)

end ByteSource

end ParquetFooter
