import ParquetFooter.Metadata.ColumnStatistics
import ParquetFooter.Record.ColumnChunk
import ParquetFooter.Schema.Basic
import ParquetFooter.Policy

/-!
# Writing a column chunk

A `ChunkAssembly` describes a column chunk while it is written. What the schema and the policy say
is recorded when it starts; a file and statistics can be set, the last of several counts; and
finishing records sizes, offsets and encodings. Until then the offset of the chunk is 0. The offset
of a finished chunk is the end of the chunk, added up with wrap-around.
-/

namespace ParquetFooter

open Record

/-- A change to a chunk that is not finished. -/
inductive ChunkEdit where
  /-- The file that holds the data; an empty name means that of the footer. -/
  | filePath (path : String)
  | statistics (statistics : ColumnStatistics)
deriving DecidableEq, Repr

/-- What is known of a chunk when all its pages are written. -/
structure ChunkSummary where
  numValues : Int64
  dictionaryPageOffset : Option Int64
  /-- The offset of the first index page. -/
  indexPageOffset : Option Int64
  /-- The offset of the first data page. -/
  dataPageOffset : Int64
  /-- The size of all pages in the file. -/
  compressedSize : Int64
  /-- The size of all pages before compression. -/
  uncompressedSize : Int64
  /-- Whether the dictionary was given up on the way. -/
  dictionaryFallback : Bool
deriving DecidableEq, Repr

/-- The offset of the first page: that of the dictionary page if it is positive. -/
def ChunkSummary.firstPageOffset (summary : ChunkSummary) : Int64 :=
  match summary.dictionaryPageOffset with
  | some offset => if 0 < offset then offset else summary.dataPageOffset
  | none => summary.dataPageOffset

/-- The offset just behind the pages. -/
def ChunkSummary.endOffset (summary : ChunkSummary) : Int64 :=
  summary.firstPageOffset + summary.compressedSize

/-- A column chunk that is being written. -/
structure ChunkAssembly where
  column : Column Primitive
  policy : Policy
  /-- The file that holds the data, when it is not that of the footer. -/
  filePath : Option String
  /-- The offset just behind the chunk, 0 until it is finished. -/
  fileOffset : Int64
  /-- The metadata so far. -/
  metadata : ColumnMetadata
deriving DecidableEq

namespace ChunkAssembly

/-- A chunk of a column of which nothing is written. -/
def start (policy : Policy) (column : Column Primitive) : ChunkAssembly where
  column := column
  policy := policy
  filePath := none
  fileOffset := 0
  metadata :=
    { type := column.node.physicalType
      encodings := []
      pathInSchema := column.path.parts
      compression := policy.compression column.path
      numValues := 0
      totalUncompressedSize := 0
      totalCompressedSize := 0
      keyValueMetadata := none
      dataPageOffset := 0
      indexPageOffset := none
      dictionaryPageOffset := none
      statistics := none }

/-- A chunk with a change. -/
def edit (assembly : ChunkAssembly) : ChunkEdit → ChunkAssembly
  | .filePath path => { assembly with filePath := if path = "" then none else some path }
  | .statistics statistics =>
    { assembly with metadata := { assembly.metadata with statistics := some statistics.toRecord } }

/-- The encodings of a finished chunk. -/
def encodings (assembly : ChunkAssembly) (fallback : Bool) : List Encoding :=
  assembly.policy.encodings assembly.column.path assembly.column.node.physicalType fallback

/-- A finished chunk. -/
def finish (assembly : ChunkAssembly) (summary : ChunkSummary) : ChunkAssembly :=
  { assembly with
    fileOffset := summary.endOffset
    metadata :=
      { assembly.metadata with
        encodings := assembly.encodings summary.dictionaryFallback
        numValues := summary.numValues
        totalUncompressedSize := summary.uncompressedSize
        totalCompressedSize := summary.compressedSize
        dataPageOffset := summary.dataPageOffset
        indexPageOffset := summary.indexPageOffset
        dictionaryPageOffset := summary.dictionaryPageOffset } }

/-- A chunk after some changes and, if all its pages are written, its end. -/
def complete (assembly : ChunkAssembly) (edits : List ChunkEdit) (summary? : Option ChunkSummary) :
    ChunkAssembly :=
  let edited := edits.foldl edit assembly
  match summary? with
  | some summary => edited.finish summary
  | none => edited

/-- The record of a chunk as it stands. -/
def chunk (assembly : ChunkAssembly) : ColumnChunk :=
  ⟨assembly.filePath, assembly.fileOffset, some assembly.metadata⟩

end ChunkAssembly

end ParquetFooter
