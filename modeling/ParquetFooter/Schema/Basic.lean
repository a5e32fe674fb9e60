import ParquetFooter.Schema.Node
import ParquetFooter.Schema.Path

/-!
# Schemas

A `Schema` is a tree together with its leaf columns in depth-first order. A column has the path to
its leaf and two levels: how many nodes on the path may be missing, and how many may be repeated.
Levels are 16 bit integers. Every leaf also knows the child of the root that it lies in. A caller
may describe any other node as a column too; what only leaves have must not be asked of it then.

Levels can be counted only where every node below the root has a repetition. To make a schema of
any other tree, or of a primitive, is a breach.
-/

namespace ParquetFooter

/-- A node, or what is known to be a leaf, with its path and levels. -/
structure Column (α : Type) where
  node : α
  /-- The path from the root to the node. -/
  path : ColumnPath
  /-- How many nodes on the path are not required. -/
  maxDefinitionLevel : Int16
  /-- How many nodes on the path are repeated. -/
  maxRepetitionLevel : Int16
deriving DecidableEq

/-- A leaf of a schema together with the child of the root that it lies in. -/
structure Leaf extends Column Primitive where
  /-- The index of the child of the root. -/
  rootIndex : Nat
deriving DecidableEq

/-- A tree with its leaf columns. -/
structure Schema where
  root : Node
  /-- The leaves, depth first. -/
  leaves : List Leaf
deriving DecidableEq

namespace Column

/-- Any node as a column, with a path and levels of the caller's choice. -/
def ofNode (node : Node) (path : ColumnPath) (definition repetition : Int16) : Column Node :=
  ⟨node, path, definition, repetition⟩

/-- The primitive that a column is the column of. -/
def primitive (column : Column Node) : Except Breach Primitive :=
  match column.node with
  | .primitive leaf => .ok leaf
  | .group _ _ => .error .columnOfGroup

/-- The physical type of the values of a column. -/
def physicalType (column : Column Node) : Except Breach PhysicalType := do
  return (← column.primitive).physicalType

/-- The length of the values of a column whose type has a fixed length. -/
def length (column : Column Node) : Except Breach Int32 := do
  return (← column.primitive).length

end Column

/-- A place in a schema tree: the path and levels so far. -/
structure Position where
  /-- The index of the child of the root that the place lies in. -/
  rootIndex : Nat
  /-- The names above. -/
  path : List String
  /-- How many nodes above are not required. -/
  definition : Int16
  /-- How many nodes above are repeated. -/
  repetition : Int16
deriving DecidableEq, Repr

/-- The place below a node with a name and a repetition. -/
def Position.enter (position : Position) (name : String) (repetition : Repetition) : Position where
  rootIndex := position.rootIndex
  path := position.path ++ [name]
  definition :=
    match repetition with
    | .required => position.definition
    | .optional | .repeated => position.definition + 1
  repetition :=
    match repetition with
    | .required | .optional => position.repetition
    | .repeated => position.repetition + 1

/-- The leaf with a primitive at a place. -/
def Position.leaf (position : Position) (primitive : Primitive) : Leaf where
  node := primitive
  path := ⟨position.path⟩
  maxDefinitionLevel := position.definition
  maxRepetitionLevel := position.repetition
  rootIndex := position.rootIndex

mutual

/-- The leaves of a tree at a place. -/
def Node.leaves (position : Position) : Node → Except Breach (List Leaf)
  | .primitive leaf =>
    match leaf.repetition with
    | some repetition => .ok [(position.enter leaf.name repetition).leaf leaf]
    | none => .error .levelsWithoutRepetition
  | .group heading children =>
    match heading.repetition with
    | some repetition => leavesAll (position.enter heading.name repetition) children
    | none => .error .levelsWithoutRepetition

/-- The leaves of several trees at a place. -/
def Node.leavesAll (position : Position) : List Node → Except Breach (List Leaf)
  | [] => .ok []
  | node :: nodes => do
    let leaves ← node.leaves position
    let others ← leavesAll position nodes
    return leaves ++ others

end

/-- The leaves of the children of a root, of which the first has the given index. -/
def Node.leavesFrom : Nat → List Node → Except Breach (List Leaf)
  | _, [] => .ok []
  | index, node :: nodes => do
    let leaves ← node.leaves ⟨index, [], 0, 0⟩
    let others ← leavesFrom (index + 1) nodes
    return leaves ++ others

namespace Schema

/-- The schema with a root. -/
def ofNode (root : Node) : Except Breach Schema :=
  match root with
  | .primitive _ => .error .schemaOfPrimitive
  | .group _ children => do
    let leaves ← Node.leavesFrom 0 children
    return ⟨root, leaves⟩

/-- The name of a schema. -/
def name (schema : Schema) : String := schema.root.name

/-- The number of leaves. -/
def numColumns (schema : Schema) : Nat := schema.leaves.length

/-- The column with an index that the schema has. -/
def column (schema : Schema) (index : Nat) : Except Breach (Column Primitive) :=
  match schema.leaves[index]? with
  | some leaf => .ok leaf.toColumn
  | none => .error (.columnIndex index schema.numColumns)

/-- The index of the child of the root that a column lies in. -/
def rootIndex (schema : Schema) (index : Nat) : Except Fault Nat :=
  match schema.leaves[index]? with
  | some leaf => .ok leaf.rootIndex
  | none => .error (.indexOutOfBound index schema.numColumns)

end Schema

end ParquetFooter
