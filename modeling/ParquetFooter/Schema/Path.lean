/-!
# Column paths

The path of a column is the list of names from the child of the root down to the column. Paths are
compared name by name: a name that holds a dot is not the same as two names.
-/

namespace ParquetFooter

/-- The names on the way to a column. -/
structure ColumnPath where
  /-- The names, outermost first. -/
  parts : List String
deriving DecidableEq, Repr

namespace ColumnPath

/-- The names of a path, joined by dots. -/
def text (path : ColumnPath) : String := ".".intercalate path.parts

/-- A path with more names below it. -/
def append (path : ColumnPath) (tail : List String) : ColumnPath := ⟨path.parts ++ tail⟩

/-- Whether a path comes before another one or is equal to it: the first name that differs decides,
by its code points, and a path comes before the paths below it. -/
def atMost (left right : ColumnPath) : Bool := (compare left.parts right.parts).isLE

/-- Paths in ascending order. -/
def sort (paths : List ColumnPath) : List ColumnPath := paths.mergeSort atMost

/-- The number of different paths. -/
def countDistinct (paths : List ColumnPath) : Nat := paths.eraseDups.length

end ColumnPath

end ParquetFooter
