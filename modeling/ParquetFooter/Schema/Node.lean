import ParquetFooter.Enumeration

/-!
# Schema trees

A schema is a tree of groups with primitives at its leaves. Nodes are plain data, and anyone may put
them together. `PrimitiveSpec.make` is how primitives are meant to be made: it gives them a
repetition, and refuses a fixed length type without a length. A group may be made of anything; the
root of a schema has no repetition.

What a node offers depends on its kind. Asking a primitive for its children, a group for its
physical type, or a node without repetition for its repetition is a breach.
-/

namespace ParquetFooter

/-- A leaf of a schema. -/
structure Primitive where
  name : String
  /-- How often it occurs in its parent. -/
  repetition : Option Repetition
  /-- The type that its values are stored in. -/
  physicalType : PhysicalType
  /-- The length of the values of a fixed length type. -/
  length : Int32
  /-- An id given by the writer. -/
  id : Option Int32
deriving DecidableEq, Repr

/-- A group without its children. -/
structure Heading where
  name : String
  /-- How often it occurs in its parent. -/
  repetition : Option Repetition
  /-- An id given by the writer. -/
  id : Option Int32
deriving DecidableEq, Repr

/-- A node of a schema tree. -/
inductive Node where
  | primitive (leaf : Primitive)
  | group (heading : Heading) (children : List Node)

/-- What a primitive is made from. -/
structure PrimitiveSpec where
  name : String
  /-- The type that its values are stored in. -/
  physicalType : PhysicalType
  /-- How often it occurs in its parent. -/
  repetition : Repetition := .optional
  length : Int32 := -1
  /-- An id given by the writer. -/
  id : Option Int32 := none
deriving DecidableEq, Repr

/-- The primitive of a specification, unless a fixed length is missing. -/
def PrimitiveSpec.make (spec : PrimitiveSpec) : Except Fault Primitive :=
  if spec.physicalType = .fixedLenByteArray ∧ spec.length < 0 then
    .error (.defect (.fixedLength spec.length spec.name))
  else .ok ⟨spec.name, some spec.repetition, spec.physicalType, spec.length, spec.id⟩

namespace Node

mutual

/-- Whether two trees are equal. -/
def decEq : (left right : Node) → Decidable (left = right)
  | .primitive left, .primitive right =>
    if same : left = right then .isTrue (by rw [same])
    else .isFalse fun equal => same (by injection equal)
  | .group leftHeading leftChildren, .group rightHeading rightChildren =>
    if same : leftHeading = rightHeading then
      match decEqAll leftChildren rightChildren with
      | .isTrue equal => .isTrue (by rw [same, equal])
      | .isFalse different => .isFalse fun equal => different (by injection equal)
    else .isFalse fun equal => same (by injection equal)
  | .primitive _, .group _ _ => .isFalse nofun
  | .group _ _, .primitive _ => .isFalse nofun

/-- Whether two lists of trees are equal. -/
def decEqAll : (left right : List Node) → Decidable (left = right)
  | [], [] => .isTrue rfl
  | left :: leftRest, right :: rightRest =>
    match decEq left right with
    | .isTrue same =>
      match decEqAll leftRest rightRest with
      | .isTrue equal => .isTrue (by rw [same, equal])
      | .isFalse different => .isFalse fun equal => different (by injection equal)
    | .isFalse different => .isFalse fun equal => different (by injection equal)
  | [], _ :: _ => .isFalse nofun
  | _ :: _, [] => .isFalse nofun

end

instance : DecidableEq Node := decEq

/-- The name of a node. -/
def name : Node → String
  | primitive leaf => leaf.name
  | group heading _ => heading.name

/-- The repetition of a node, if it has one. -/
def repetition? : Node → Option Repetition
  | primitive leaf => leaf.repetition
  | group heading _ => heading.repetition

/-- The repetition of a node that has one. -/
def repetition (node : Node) : Except Breach Repetition :=
  match node.repetition? with
  | some repetition => .ok repetition
  | none => .error (.repetitionOf node.name)

/-- The id of a node, if it has one. -/
def id? : Node → Option Int32
  | primitive leaf => leaf.id
  | group heading _ => heading.id

/-- The children of a group. -/
def children : Node → Except Breach (List Node)
  | primitive _ => .error .childrenOfPrimitive
  | group _ children => .ok children

/-- The physical type of a primitive. -/
def physicalType : Node → Except Breach PhysicalType
  | primitive leaf => .ok leaf.physicalType
  | group _ _ => .error .physicalTypeOfGroup

/-- Whether a node is a leaf. -/
def isPrimitive : Node → Bool
  | primitive _ => true
  | group _ _ => false

/-- Whether a node is a whole schema: a group without repetition. -/
def isSchema : Node → Bool
  | primitive _ => false
  | group heading _ => heading.repetition.isNone

/-- Whether a node need not occur exactly once in its parent. -/
def isOptional (node : Node) : Bool := node.repetition?.any (· ≠ .required)

mutual

/-- The nodes of a tree with their depths, parents before their children. -/
def withDepths (depth : Nat) : Node → List (Nat × Node)
  | primitive leaf => [(depth, primitive leaf)]
  | group heading children => (depth, group heading children) :: withDepthsAll (depth + 1) children

/-- The nodes of several trees with their depths. -/
def withDepthsAll (depth : Nat) : List Node → List (Nat × Node)
  | [] => []
  | node :: nodes => withDepths depth node ++ withDepthsAll depth nodes

end

end Node

end ParquetFooter
