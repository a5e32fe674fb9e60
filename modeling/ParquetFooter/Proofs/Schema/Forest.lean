import ParquetFooter.Schema.Node
import Mathlib.Tactic.Common

/-! # Forests

The children of a node are a list of nodes, so what holds of every schema tree is proved for lists
of nodes: an induction goes to the children of the first node and to the nodes beside it. A tree is
a list of one node.
-/

namespace ParquetFooter.Node

/-- A property of forests that passes from the children of a first node, and from the nodes beside
it, to the whole. -/
@[elab_as_elim]
theorem forest_induction {motive : List Node → Prop} (nil : motive [])
    (primitive : ∀ leaf beside, motive beside → motive (.primitive leaf :: beside))
    (group : ∀ heading children beside, motive children → motive beside →
      motive (.group heading children :: beside)) : ∀ nodes, motive nodes
  | [] => nil
  | .primitive leaf :: beside =>
      primitive leaf beside (forest_induction nil primitive group beside)
  | .group heading children :: beside =>
      group heading children beside (forest_induction nil primitive group children)
        (forest_induction nil primitive group beside)

theorem withDepthsAll_singleton (depth : Nat) (node : Node) :
    withDepthsAll depth [node] = node.withDepths depth := by
  rw [withDepthsAll, withDepthsAll, List.append_nil]

/-- What holds of every node of a primitive and the trees beside it. -/
theorem forall_mem_primitive_cons_iff {depth : Nat} {leaf : Primitive} {beside : List Node}
    {property : Nat × Node → Prop} :
    (∀ entry ∈ withDepthsAll depth (.primitive leaf :: beside), property entry) ↔
      property (depth, .primitive leaf) ∧ ∀ entry ∈ withDepthsAll depth beside, property entry := by
  rw [withDepthsAll, withDepths, List.singleton_append, List.forall_mem_cons]

/-- What holds of every node of a group, the trees below it and the trees beside it. -/
theorem forall_mem_group_cons_iff {depth : Nat} {heading : Heading} {children beside : List Node}
    {property : Nat × Node → Prop} :
    (∀ entry ∈ withDepthsAll depth (.group heading children :: beside), property entry) ↔
      (property (depth, .group heading children) ∧
        ∀ entry ∈ withDepthsAll (depth + 1) children, property entry) ∧
      ∀ entry ∈ withDepthsAll depth beside, property entry := by
  rw [withDepthsAll, withDepths, List.forall_mem_append, List.forall_mem_cons]

/-- No node lies above the trees that it is found in. -/
theorem le_of_mem_withDepthsAll {depth : Nat} {nodes : List Node} :
    ∀ entry ∈ withDepthsAll depth nodes, depth ≤ entry.1 := by
  induction nodes using forest_induction generalizing depth with
  | nil => exact List.forall_mem_nil _
  | primitive leaf beside ih =>
      rw [forall_mem_primitive_cons_iff]
      exact ⟨Nat.le_refl depth, ih⟩
  | group heading children beside inner ih =>
      rw [forall_mem_group_cons_iff]
      exact ⟨⟨Nat.le_refl depth, fun entry member => Nat.le_of_succ_le (inner entry member)⟩, ih⟩

/-- A tree that can be the schema of a file: a group without repetition, all nodes below which have
one and lie at most 128 levels deep. -/
structure Rooted (root : Node) : Prop where
  isSchema : root.isSchema
  repetition : ∀ entry ∈ root.withDepths 0, 0 < entry.1 → entry.2.repetition?.isSome
  shallow : ∀ entry ∈ root.withDepths 0, entry.1 ≤ 128

/-- The nodes below a root are those of its children. -/
theorem forall_mem_below_iff {heading : Heading} {children : List Node}
    {property : Nat × Node → Prop} :
    (∀ entry ∈ (group heading children).withDepths 0, 0 < entry.1 → property entry) ↔
      ∀ entry ∈ withDepthsAll 1 children, property entry := by
  rw [withDepths, List.forall_mem_cons]
  constructor
  · exact fun below entry member => below.2 entry member (le_of_mem_withDepthsAll entry member)
  · exact fun every => ⟨nofun, fun entry member _ => every entry member⟩

/-- Whether a group is rooted is told by its repetition and the nodes of its children. -/
theorem rooted_group_iff {heading : Heading} {children : List Node} :
    Rooted (.group heading children) ↔
      heading.repetition = none ∧
      (∀ entry ∈ withDepthsAll 1 children, entry.2.repetition?.isSome) ∧
      (∀ entry ∈ withDepthsAll 1 children, entry.1 ≤ 128) := by
  constructor
  · rintro ⟨isSchema, repetition, shallow⟩
    rw [withDepths, List.forall_mem_cons] at shallow
    exact ⟨Option.isNone_iff_eq_none.mp isSchema, forall_mem_below_iff.mp repetition, shallow.2⟩
  · rintro ⟨none, repetition, shallow⟩
    refine ⟨Option.isNone_iff_eq_none.mpr none, forall_mem_below_iff.mpr repetition, ?_⟩
    rw [withDepths, List.forall_mem_cons]
    exact ⟨Nat.zero_le _, shallow⟩

end ParquetFooter.Node
