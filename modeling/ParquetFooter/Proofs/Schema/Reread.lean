import ParquetFooter.Proofs.Schema.Nesting

/-! # What a flattened schema is read as

A tree that is flattened need not be read as the same tree: lengths are lost, a repetition of the
root is dropped, and a number of children that does not fit into 32 bits is written as another one.
But where it is read at all, it is read with the same columns. The numbers of children that were
written are never larger than the real ones, and as they all are used up, they are the real ones.
So the trees that are read have the shape of those that were written, and their leaves have the same
types and paths.
-/

namespace ParquetFooter

open Record

/-- Tells a column by the type of its values and the names that lead to it. -/
structure Label where
  type : PhysicalType
  path : List String
deriving DecidableEq

/-- The label of the column at the end of a branch. -/
def Branch.label (branch : Branch) : Label := ⟨branch.leaf.physicalType, branch.names⟩

/-- The label of a leaf. -/
def Leaf.label (leaf : Leaf) : Label := ⟨leaf.node.physicalType, leaf.path.parts⟩

/-- The labels of the columns, in their order. -/
def Schema.labels (schema : Schema) : List Label := schema.leaves.map Leaf.label

/-- Two counts of trees to come that end together are the same, if the one that starts no higher
never grows by more. -/
theorem Arities.Closes.eq_of_le {less more : Int} {lower upper : List Int}
    (low : Closes less lower) (high : Closes more upper) (le : less ≤ more)
    (each : List.Forall₂ (· ≤ ·) lower upper) : less = more ∧ lower = upper := by
  induction each generalizing less more with
  | nil => exact ⟨low.trans high.symm, rfl⟩
  | @cons arity count arities counts first others ih =>
      obtain ⟨same, rest⟩ := ih low.2 high.2 (by omega)
      obtain rfl : arity = count := by omega
      exact ⟨by omega, by rw [rest]⟩

/-- A number of children that is cut off to 32 bits does not become larger. -/
theorem Heading.element_arity_le (heading : Heading) (count : Nat) :
    (heading.element count).arity ≤ (count : Int) := by
  change (Int32.ofNat count).toInt ≤ _
  rw [Int32.toInt_ofNat', Int.bmod_def, Int32.size]
  omega

namespace Node

/-- The number of children of a node; a leaf has none. -/
def arity : Node → Nat
  | primitive _ => 0
  | group _ children => children.length

/-- No node announces more children than it has. -/
theorem listed_arity_le (node : Node) : node.listed.arity ≤ (node.arity : Int) := by
  cases node with
  | primitive leaf => exact Int.le_refl 0
  | group heading children => exact heading.element_arity_le children.length

/-- A group whose number of children is written as it is has few of them. -/
theorem fewChildren_of_arity {node : Node} (same : node.listed.arity = (node.arity : Int)) :
    node.FewChildren := by
  cases node with
  | primitive leaf => trivial
  | group heading children => exact Heading.lt_of_element_arity same

/-- The real numbers of children close the count of trees to come. -/
theorem closes_arities (depth : Nat) (nodes : List Node) :
    Arities.Closes nodes.length
      ((withDepthsAll depth nodes).map fun entry => (entry.2.arity : Int)) := by
  induction nodes using forest_induction generalizing depth with
  | nil => rfl
  | primitive leaf beside ih =>
      have others := ih depth
      have left : ((beside.length + 1 : Nat) : Int) - 1 + (0 : Nat) = beside.length := by omega
      rw [withDepthsAll, withDepths, List.singleton_append, List.map_cons, List.length_cons]
      refine ⟨by omega, ?_⟩
      rwa [Node.arity, left]
  | group heading children beside inner ih =>
      have whole := (inner (depth + 1)).append (ih depth)
      have left : ((beside.length + 1 : Nat) : Int) - 1 + (children.length : Nat) =
          children.length + beside.length := by omega
      rw [withDepthsAll, withDepths, List.cons_append, List.map_cons, List.map_append,
        List.length_cons]
      refine ⟨by omega, ?_⟩
      rwa [Node.arity, left]

/-- Only a tree whose groups have few children is read from what it is flattened to. -/
theorem fewChildren_of_ofElements {root again : Node}
    (read : ofElements root.listing = .ok again) :
    ∀ entry ∈ root.withDepths 0, entry.2.FewChildren := by
  obtain ⟨element, inner, children, split, -, arity, -, parse⟩ := ofElements_eq_ok.mp read
  obtain ⟨used, rfl, stretch⟩ := parse.exists_stretch
  have written : Arities.Closes 1 (root.listing.map SchemaElement.arity) := by
    rw [split, List.append_nil]
    refine ⟨Int.one_pos, ?_⟩
    rw [Int.sub_self, Int.zero_add, arity]
    exact stretch.closes
  have real := closes_arities 0 [root]
  rw [withDepthsAll_singleton] at real
  rw [listing_eq_map, List.map_map] at written
  have each : List.Forall₂ (· ≤ ·)
      ((root.withDepths 0).map (SchemaElement.arity ∘ fun entry => entry.2.listed))
      ((root.withDepths 0).map fun entry => (entry.2.arity : Int)) := by
    rw [List.forall₂_map_left_iff, List.forall₂_map_right_iff, List.forall₂_same]
    exact fun entry _ => entry.2.listed_arity_le
  obtain ⟨-, same⟩ := written.eq_of_le real (Int.le_refl 1) each
  intro entry member
  exact fewChildren_of_arity (List.map_inj_left.mp same entry member)

theorem map_label_branchesAll_primitive (leaf : Primitive) (beside : List Node) :
    (branchesAll (.primitive leaf :: beside)).map Branch.label =
      ⟨leaf.physicalType, [leaf.name]⟩ :: (branchesAll beside).map Branch.label := rfl

/-- The labels below a group have its name in front of their paths. -/
theorem map_label_branchesAll_group (heading : Heading) (children beside : List Node) :
    (branchesAll (.group heading children :: beside)).map Branch.label =
      ((branchesAll children).map Branch.label).map
          (fun label => { label with path := heading.name :: label.path }) ++
        (branchesAll beside).map Branch.label := by
  rw [branchesAll, branches, List.map_append, List.map_map, List.map_map]
  rfl

/-- As many trees as were flattened are read with the same columns, and nothing behind them is
taken. The induction is on the trees; their first element tells which rule the parse begins with. -/
theorem Parse.labels {depth levels : Nat} {nodes again : List Node}
    {behind rest : List SchemaElement}
    (few : ∀ entry ∈ withDepthsAll depth nodes, entry.2.FewChildren)
    (parse : Parse levels (listingAll nodes ++ behind) again rest)
    (counted : again.length = nodes.length) :
    (branchesAll again).map Branch.label = (branchesAll nodes).map Branch.label ∧
      rest = behind := by
  induction nodes using forest_induction generalizing depth levels again behind rest with
  | nil =>
      obtain rfl := List.eq_nil_of_length_eq_zero counted
      cases parse with
      | nil => exact ⟨rfl, rfl⟩
  | primitive leaf beside ih =>
      rw [withDepthsAll, List.forall_mem_append] at few
      rw [listingAll, listing, List.singleton_append, List.cons_append] at parse
      cases parse with
      | nil => cases counted
      | @primitive _ _ _ found _ _ describes others =>
          obtain ⟨labels, ended⟩ := ih few.2 others (Nat.succ_inj.mp counted)
          refine ⟨?_, ended⟩
          have type : leaf.physicalType = found.physicalType := Option.some.inj describes.type
          have name : leaf.name = found.name := describes.name
          rw [map_label_branchesAll_primitive, map_label_branchesAll_primitive, type, name, labels]
      | group notLeaf => exact absurd ⟨rfl, rfl⟩ notLeaf
  | group heading children beside inner ih =>
      rw [forall_mem_group_cons_iff] at few
      rw [listingAll, listing, List.cons_append, List.cons_append, List.append_assoc] at parse
      cases parse with
      | nil => cases counted
      | primitive describes => exact absurd describes.isLeaf (heading.element_not_isLeaf _)
      | group notLeaf arity given below others =>
          -- The element of the heading announces as many children as were flattened behind it.
          rw [Heading.element_arity few.1.1] at arity
          obtain ⟨inside, rfl⟩ := inner few.1.2 below (Int.natCast_inj.mp arity.symm)
          obtain ⟨labels, ended⟩ := ih few.2 others (Nat.succ_inj.mp counted)
          refine ⟨?_, ended⟩
          rw [map_label_branchesAll_group, map_label_branchesAll_group, inside, labels]
          rfl

end Node

namespace Schema

open Node

/-- The labels of a schema are those at the ends of its branches. -/
theorem labels_of_ofNode {heading : Heading} {children : List Node} {schema : Schema}
    (made : ofNode (.group heading children) = .ok schema) :
    schema.labels = (branchesAll children).map Branch.label := by
  obtain ⟨-, rfl⟩ := ofNode_group_eq_ok.mp made
  rw [← map_snd_branchesFrom 0, labels, List.map_map, List.map_map]
  exact List.map_congr_left fun place _ => congrArg (Label.mk _) (List.nil_append _)

/-- A schema is read with the columns that it was written with. -/
theorem labels_reread {root again : Node} {schema reread : Schema}
    (made : ofNode root = .ok schema) (read : ofElements root.listing = .ok again)
    (remade : ofNode again = .ok reread) : reread.labels = schema.labels := by
  have few := fewChildren_of_ofElements read
  obtain ⟨-, heading, children, rfl, -, -⟩ := group_of_ofNode made
  obtain ⟨element, inner, nodes, split, -, arity, rfl, parse⟩ := ofElements_eq_ok.mp read
  rw [listing] at split
  obtain ⟨rfl, rfl⟩ := List.cons.inj split
  rw [withDepths, List.forall_mem_cons] at few
  rw [Heading.element_arity few.1] at arity
  rw [← List.append_nil (listingAll children)] at parse
  obtain ⟨same, -⟩ := parse.labels few.2 (Int.natCast_inj.mp arity.symm)
  rw [labels_of_ofNode made, labels_of_ofNode remade, same]

end Schema

end ParquetFooter
