import ParquetFooter.Record.SchemaElement
import ParquetFooter.Schema.Node

/-!
# Flattened schemas

A footer keeps a schema as the list of its nodes, parents before their children. `Node.flatten`
writes that list and `Node.ofElements` reads it. Every primitive is asked for its repetition when it
is written.

Writers do not agree on every detail, so the reader is lenient. An element with a type and no
children, or zero children, is a primitive; any other element is a group, whatever its type. The
root may have a repetition, which is dropped. The list must hold exactly one tree; the number of
trees is looked at only when all of them were read. Trees nest at most `maxDepth` levels deep below
the root.
-/

namespace ParquetFooter

open Record

/-- The element of a primitive; a negative length is left out. -/
def Primitive.element (leaf : Primitive) : Except Breach SchemaElement := do
  let repetition ← (Node.primitive leaf).repetition
  return {
    type := some leaf.physicalType
    typeLength := if 0 ≤ leaf.length then some leaf.length else none
    repetition := some repetition
    name := leaf.name
    numChildren := none
    fieldId := leaf.id }

/-- The element of a group with a number of children, which is cut off to 32 bits. -/
def Heading.element (heading : Heading) (count : Nat) : SchemaElement where
  type := none
  typeLength := none
  repetition := heading.repetition
  name := heading.name
  numChildren := some (Int32.ofNat count)
  fieldId := heading.id

namespace Node

mutual

/-- The elements of a tree. -/
def elements : Node → Except Breach (List SchemaElement)
  | primitive leaf => do
    let element ← leaf.element
    return [element]
  | group heading children => do
    let below ← elementsAll children
    return heading.element children.length :: below

/-- The elements of several trees. -/
def elementsAll : List Node → Except Breach (List SchemaElement)
  | [] => .ok []
  | node :: nodes => do
    let first ← node.elements
    let others ← elementsAll nodes
    return first ++ others

end

/-- The elements of a schema, whose root must be a group. -/
def flatten (root : Node) : Except Failure (List SchemaElement) :=
  match root with
  | primitive _ => .error (.fault (.defect .primitiveRoot))
  | group _ _ => liftM root.elements

/-- How many levels of nodes may lie below the root of a flattened schema. -/
def maxDepth : Nat := 128

/-- The primitive of an element with a physical type. -/
def ofPrimitiveElement (element : SchemaElement) (physicalType : PhysicalType) :
    Except Fault Node :=
  match element.repetition with
  | none => .error (.defect .primitiveWithoutRepetition)
  | some repetition => do
    let spec : PrimitiveSpec :=
      ⟨element.name, physicalType, repetition, element.typeLength.getD (-1), element.fieldId⟩
    return primitive (← spec.make)

/-- The number of children of a group element. Below the root a repetition is due. -/
def childCount (atRoot : Bool) (element : SchemaElement) : Except Fault Nat :=
  let count := element.numChildren.getD 0
  if count < 0 then .error (.defect (.childCount count element.name))
  else if !atRoot && element.repetition.isNone then .error (.defect .groupWithoutRepetition)
  else .ok count.toInt.toNat

/-- The heading of a group element; a repetition of the root is dropped. -/
def headingOf (atRoot : Bool) (element : SchemaElement) : Heading :=
  ⟨element.name, if atRoot then none else element.repetition, element.fieldId⟩

/-- The first tree of a list of elements, which may have `levels` levels. The elements are the end
of a list of `total` elements. -/
def readTree (total : Nat) : (levels : Nat) → (atRoot : Bool) →
    StateT (List SchemaElement) (Except Fault) Node
  | 0, _ => fun _ => .error (.defect (.schemaNesting maxDepth))
  | levels + 1, atRoot => fun elements =>
    match elements with
    | [] => .error (.defect (.elementIndex total total))
    | element :: rest =>
      match element.type, element.numChildren with
      | some physicalType, none | some physicalType, some 0 => do
        return (← ofPrimitiveElement element physicalType, rest)
      | _, _ => do
        let count ← childCount atRoot element
        let (children, rest) ← Reader.times (readTree total levels false) count rest
        return (group (headingOf atRoot element) children, rest)

/-- All trees of a list of elements, at most one for each entry of `clock`. Every tree takes at
least one element, so a list at least as long as the elements suffices. -/
def readTrees (total : Nat) : (clock : List SchemaElement) → (atRoot : Bool) →
    List SchemaElement → Except Fault (List Node)
  | _, _, [] => .ok []
  | [], _, _ :: _ => .error (.defect (.elementIndex total total))
  | _ :: clock, atRoot, element :: rest => do
    let (tree, rest) ← readTree total (maxDepth + 1) atRoot (element :: rest)
    let trees ← readTrees total clock false rest
    return tree :: trees

/-- The schema of a list of elements. -/
def ofElements (elements : List SchemaElement) : Except Fault Node := do
  match ← readTrees elements.length elements true elements with
  | [group heading children] => return group heading children
  | [primitive _] => .error (.defect .primitiveRoot)
  | trees => .error (.defect (.rootCount trees.length))

end Node

end ParquetFooter
