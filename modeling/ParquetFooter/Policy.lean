import ParquetFooter.Record.KeyValue
import ParquetFooter.Schema.Path

/-!
# Writer policies

How a file is to be written: the version of the format, what is recorded about the writer, and for
every column its encoding, its compression and whether it has a dictionary. A choice is made for all
columns or for the column with one path. Each of the three is looked up on its own: the choice for
the path counts, else the choice for all columns, else a default.

The encoding that can be chosen is the one used without a dictionary; a dictionary encoding there is
a breach.
-/

namespace ParquetFooter

/-- A choice for columns. -/
inductive Choice where
  /-- The encoding of values that are not in a dictionary. -/
  | encoding (encoding : Encoding)
  | compression (compression : Compression)
  | dictionary (enabled : Bool)
deriving DecidableEq, Repr

/-- A step in setting up a policy. -/
inductive Setting where
  | version (version : FormatVersion)
  | createdBy (name : String)
  /-- Keys and values attached to the file. -/
  | keyValueMetadata (entries : Option (List Record.KeyValue))
  | everywhere (choice : Choice)
  | column (path : ColumnPath) (choice : Choice)
deriving DecidableEq, Repr

/-- The choices made so far for some columns. -/
structure Choices where
  encoding : Option Encoding
  compression : Option Compression
  dictionary : Option Bool
deriving DecidableEq, Repr

namespace Choices

/-- No choices. -/
def none : Choices := ⟨.none, .none, .none⟩

/-- Choices with one more, which replaces an earlier one of its kind. -/
def add (choices : Choices) : Choice → Except Breach Choices
  | .encoding encoding =>
    if encoding.isDictionary then .error .dictionaryAsFallback
    else .ok { choices with encoding := some encoding }
  | .compression compression => .ok { choices with compression := some compression }
  | .dictionary enabled => .ok { choices with dictionary := some enabled }

end Choices

/-- How a file is to be written. -/
structure Policy where
  version : FormatVersion
  /-- The name of the writer. -/
  createdBy : String
  /-- Keys and values attached to the file. -/
  keyValueMetadata : Option (List Record.KeyValue)
  everywhere : Choices
  /-- The choices for single columns, each path once. -/
  columns : List (ColumnPath × Choices)
deriving DecidableEq, Repr

/-- The entries with the choices of one path changed; without an entry there are none so far. -/
def addChoice (path : ColumnPath) (choice : Choice) :
    List (ColumnPath × Choices) → Except Breach (List (ColumnPath × Choices))
  | [] => do return [(path, ← Choices.none.add choice)]
  | (other, choices) :: rest =>
    if other = path then do return (other, ← choices.add choice) :: rest
    else do return (other, choices) :: (← addChoice path choice rest)

namespace Policy

/-- The policy before any setting. -/
def default : Policy where
  version := .v1
  createdBy := "parquet-metadata version 0.1.0"
  keyValueMetadata := none
  everywhere := .none
  columns := []

/-- A policy with one more setting. -/
def set (policy : Policy) : Setting → Except Breach Policy
  | .version version => .ok { policy with version := version }
  | .createdBy name => .ok { policy with createdBy := name }
  | .keyValueMetadata entries => .ok { policy with keyValueMetadata := entries }
  | .everywhere choice => do return { policy with everywhere := ← policy.everywhere.add choice }
  | .column path choice => do
    return { policy with columns := ← addChoice path choice policy.columns }

/-- The policy that settings lead to, in their order. -/
def ofSettings (settings : List Setting) : Except Breach Policy := settings.foldlM set default

/-- What was chosen for a path, or else for all columns. -/
def chosen? {α : Type} (policy : Policy) (kind : Choices → Option α) (path : ColumnPath) :
    Option α :=
  ((policy.columns.lookup path).bind kind).or (kind policy.everywhere)

/-- The encoding chosen for the values of a column, if one was. -/
def encoding? (policy : Policy) (path : ColumnPath) : Option Encoding :=
  policy.chosen? Choices.encoding path

/-- The compression of a column. -/
def compression (policy : Policy) (path : ColumnPath) : Compression :=
  (policy.chosen? Choices.compression path).getD .uncompressed

/-- Whether a column has a dictionary. -/
def hasDictionary (policy : Policy) (path : ColumnPath) : Bool :=
  (policy.chosen? Choices.dictionary path).getD true

/-- The encoding of values of a type where none was chosen. -/
def usualEncoding (policy : Policy) (type : PhysicalType) : Encoding :=
  match policy.version, type with
  | .v2, .boolean => .rle
  | .v2, .int32 | .v2, .int64 => .deltaBinaryPacked
  | .v2, .byteArray | .v2, .fixedLenByteArray => .deltaByteArray
  | _, _ => .plain

/-- The encoding of the values of a column that are not in a dictionary. -/
def directEncoding (policy : Policy) (path : ColumnPath) (type : PhysicalType) : Encoding :=
  (policy.encoding? path).getD (policy.usualEncoding type)

/-- The encoding of dictionary pages. -/
def dictionaryPageEncoding (policy : Policy) : Encoding :=
  match policy.version with
  | .v1 => .plainDictionary
  | .v2 => .plain

/-- The encoding of indices into a dictionary. -/
def dictionaryIndexEncoding (policy : Policy) : Encoding :=
  match policy.version with
  | .v1 => .plainDictionary
  | .v2 => .rleDictionary

/-- The encodings that occur in a column chunk. Levels come first, then the dictionary if there is
one, of which the first version names pages and indices alike. The direct encoding ends the list
where there is no dictionary, or where it was given up on the way. -/
def encodings (policy : Policy) (path : ColumnPath) (type : PhysicalType) (fallback : Bool) :
    List Encoding :=
  let dictionary := policy.hasDictionary path
  let dictionaryEncodings :=
    if dictionary then
      match policy.version with
      | .v1 => [policy.dictionaryPageEncoding]
      | .v2 => [policy.dictionaryPageEncoding, policy.dictionaryIndexEncoding]
    else []
  let direct := if !dictionary || fallback then [policy.directEncoding path type] else []
  .rle :: dictionaryEncodings ++ direct

end Policy

end ParquetFooter
