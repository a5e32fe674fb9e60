import ParquetFooter.Proofs.Reader
import ParquetFooter.Proofs.Schema.Forest
import ParquetFooter.Schema.Flattened

/-! # Nodes that were made, and what they are flattened to

Nodes are plain data, so not all that is asked for need be there. A primitive that was made from a
specification has a repetition, and a length where its type has a fixed one. Flattening and printing
ask for the repetition only. Where every primitive has one, a tree is flattened to its listing,
which says of each node what it is, parents before their children.
-/

namespace ParquetFooter

open Record

/-- A specification makes the primitive that it says, unless a fixed length is missing. -/
theorem PrimitiveSpec.make_eq_ok {spec : PrimitiveSpec} {leaf : Primitive} :
    spec.make = .ok leaf ↔
      (spec.physicalType = .fixedLenByteArray → 0 ≤ spec.length) ∧
        leaf = ⟨spec.name, some spec.repetition, spec.physicalType, spec.length, spec.id⟩ := by
  rw [make]
  split
  next missing =>
    refine iff_of_false nofun fun valid => ?_
    exact absurd (valid.1 missing.1) (Int32.not_le.mpr missing.2)
  next valid =>
    have given (fixed : spec.physicalType = .fixedLenByteArray) : 0 ≤ spec.length :=
      Int32.not_lt.mp fun negative => valid ⟨fixed, negative⟩
    constructor
    · intro same
      exact ⟨given, (Except.ok.inj same).symm⟩
    · rintro ⟨-, rfl⟩
      rfl

namespace Primitive

/-- A primitive comes from a specification. -/
def Made (leaf : Primitive) : Prop := ∃ spec : PrimitiveSpec, spec.make = .ok leaf

/-- What a specification sees to: a repetition, and a length where the type has a fixed one. -/
theorem made_iff {leaf : Primitive} :
    leaf.Made ↔
      leaf.repetition.isSome ∧ (leaf.physicalType = .fixedLenByteArray → 0 ≤ leaf.length) := by
  constructor
  · rintro ⟨spec, made⟩
    obtain ⟨given, rfl⟩ := PrimitiveSpec.make_eq_ok.mp made
    exact ⟨rfl, given⟩
  · rintro ⟨repetition, given⟩
    obtain ⟨repetition, has⟩ := Option.isSome_iff_exists.mp repetition
    refine ⟨⟨leaf.name, leaf.physicalType, repetition, leaf.length, leaf.id⟩, ?_⟩
    rw [PrimitiveSpec.make_eq_ok, ← has]
    exact ⟨given, rfl⟩

instance (leaf : Primitive) : Decidable leaf.Made := decidable_of_iff _ made_iff.symm

/-- The element of a primitive, with a repetition if the primitive has one. -/
def listed (leaf : Primitive) : SchemaElement where
  type := some leaf.physicalType
  typeLength := if 0 ≤ leaf.length then some leaf.length else none
  repetition := leaf.repetition
  name := leaf.name
  numChildren := none
  fieldId := leaf.id

/-- The repetition of a primitive is all that its element asks for. -/
theorem element_eq {leaf : Primitive} (given : leaf.repetition.isSome) :
    leaf.element = .ok leaf.listed := by
  obtain ⟨repetition, has⟩ := Option.isSome_iff_exists.mp given
  have found : (Node.primitive leaf).repetition = .ok repetition := by
    rw [Node.repetition, Node.repetition?, has]
  rw [element, found, listed, has]
  rfl

end Primitive

namespace Node

/-- A node is made of what it should be made of: a primitive comes from a specification, and a group
is made of anything. -/
def Made : Node → Prop
  | primitive leaf => leaf.Made
  | group _ _ => True

instance : DecidablePred Made
  | primitive leaf => inferInstanceAs (Decidable leaf.Made)
  | group _ _ => .isTrue trivial

/-- A schema that was not made: its leaf has a type of a fixed length, and no length. -/
def lengthless : Node :=
  .group ⟨"schema", none, none⟩ [.primitive ⟨"a", some .required, .fixedLenByteArray, -1, none⟩]

/-- A node has what a writer asks for: a primitive has a repetition. -/
def Complete : Node → Prop
  | primitive leaf => leaf.repetition.isSome
  | group _ _ => True

/-- A node that was made is complete. -/
theorem Made.complete {node : Node} (made : node.Made) : node.Complete := by
  cases node with
  | primitive leaf => exact (Primitive.made_iff.mp made).1
  | group heading children => trivial

theorem complete_of_given {node : Node} (given : node.repetition?.isSome) : node.Complete := by
  cases node with
  | primitive leaf => exact given
  | group heading children => trivial

/-- All nodes of a rooted tree are complete. -/
theorem Rooted.complete {root : Node} (rooted : root.Rooted) :
    ∀ entry ∈ root.withDepths 0, entry.2.Complete := by
  cases root with
  | primitive leaf => exact nomatch rooted.isSchema
  | group heading children =>
      obtain ⟨-, given, -⟩ := rooted_group_iff.mp rooted
      rw [withDepths, List.forall_mem_cons]
      exact ⟨trivial, fun entry member => complete_of_given (given entry member)⟩

/-- The element of a node itself. -/
def listed : Node → SchemaElement
  | primitive leaf => leaf.listed
  | group heading children => heading.element children.length

theorem listed_name (node : Node) : node.listed.name = node.name := by
  cases node <;> rfl

mutual

/-- What a tree is flattened to where every primitive has a repetition. -/
def listing : Node → List SchemaElement
  | primitive leaf => [leaf.listed]
  | group heading children => heading.element children.length :: listingAll children

/-- What several trees are flattened to. -/
def listingAll : List Node → List SchemaElement
  | [] => []
  | node :: nodes => node.listing ++ listingAll nodes

end

theorem listingAll_singleton (node : Node) : listingAll [node] = node.listing := by
  rw [listingAll, listingAll, List.append_nil]

/-- There is one element for every node, in the same order. -/
theorem listingAll_eq_map (depth : Nat) (nodes : List Node) :
    listingAll nodes = (withDepthsAll depth nodes).map fun entry => entry.2.listed := by
  induction nodes using forest_induction generalizing depth with
  | nil => rfl
  | primitive leaf beside ih =>
      rw [listingAll, withDepthsAll, List.map_append, ih depth, listing, withDepths]
      rfl
  | group heading children beside inner ih =>
      rw [listingAll, withDepthsAll, List.map_append, ih depth, listing, withDepths,
        List.map_cons, ← inner (depth + 1)]
      rfl

/-- The listing of a tree has one element for every node. -/
theorem listing_eq_map (root : Node) :
    root.listing = (root.withDepths 0).map fun entry => entry.2.listed := by
  rw [← listingAll_singleton, ← withDepthsAll_singleton, listingAll_eq_map 0]

/-- Trees of complete nodes are flattened to their listing. -/
theorem elementsAll_eq {depth : Nat} {nodes : List Node}
    (complete : ∀ entry ∈ withDepthsAll depth nodes, entry.2.Complete) :
    elementsAll nodes = .ok (listingAll nodes) := by
  induction nodes using forest_induction generalizing depth with
  | nil => rfl
  | primitive leaf beside ih =>
      rw [forall_mem_primitive_cons_iff] at complete
      rw [elementsAll, ih complete.2, elements, leaf.element_eq complete.1]
      rfl
  | group heading children beside inner ih =>
      rw [forall_mem_group_cons_iff] at complete
      rw [elementsAll, ih complete.2, elements, inner complete.1.2]
      rfl

/-- A group of complete nodes is flattened to its listing. -/
theorem flatten_eq {heading : Heading} {children : List Node}
    (complete : ∀ entry ∈ withDepthsAll 1 children, entry.2.Complete) :
    (group heading children).flatten = .ok (group heading children).listing := by
  rw [flatten, elements, elementsAll_eq complete]
  rfl

/-- A rooted tree is flattened to its listing. -/
theorem Rooted.flatten_eq {root : Node} (rooted : root.Rooted) :
    root.flatten = .ok root.listing := by
  cases root with
  | primitive leaf => exact nomatch rooted.isSchema
  | group heading children =>
      have complete := rooted.complete
      rw [withDepths, List.forall_mem_cons] at complete
      exact Node.flatten_eq complete.2

end Node

end ParquetFooter
