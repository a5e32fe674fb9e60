import ParquetFooter.Schema.Node
import ParquetFooter.Text.Lines

/-!
# The text of a schema

A schema is printed with one line for each primitive and two for each group, around the lines of its
children, which stand two blanks further in. A group without repetition is headed as a message. A
primitive is asked for its repetition. Ids are not shown, and the length of a primitive only where
its type has one.
-/

namespace ParquetFooter

/-- The text of a physical type, with the length where the type has one. -/
def Primitive.typeText (leaf : Primitive) : String :=
  let name := Enumeration.name leaf.physicalType
  match leaf.physicalType with
  | .fixedLenByteArray => s!"{name} ({leaf.length})"
  | _ => name

/-- The line of a primitive. -/
def Primitive.line (leaf : Primitive) : Except Breach String := do
  let repetition ← (Node.primitive leaf).repetition
  return s!"{Enumeration.name repetition} {leaf.typeText} {leaf.name};"

/-- The line that opens a group. -/
def Heading.line (heading : Heading) : String :=
  match heading.repetition with
  | some repetition => s!"{Enumeration.name repetition} group {heading.name} \x7b"
  | none => s!"message {heading.name} \x7b"

namespace Node

mutual

/-- The lines of a tree, `width` blanks in. -/
def lines (width : Nat) : Node → Except Breach (List String)
  | primitive leaf => do
    let line ← leaf.line
    return [indented width line]
  | group heading children => do
    let below ← linesAll (width + 2) children
    return indented width heading.line :: below ++ [indented width "\x7d"]

/-- The lines of several trees, `width` blanks in. -/
def linesAll (width : Nat) : List Node → Except Breach (List String)
  | [] => .ok []
  | node :: nodes => do
    let first ← node.lines width
    let others ← linesAll width nodes
    return first ++ others

end

/-- The text of a schema. -/
def text (root : Node) : Except Breach String := do
  let lines ← root.lines 0
  return unlines lines

end Node

end ParquetFooter
