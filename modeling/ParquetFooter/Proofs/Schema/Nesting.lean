import ParquetFooter.Proofs.Schema.Columns
import ParquetFooter.Proofs.Schema.RoundTrip
import ParquetFooter.Proofs.Schema.Ways

/-! # Flattened schemas are read unless they nest too deeply

What a writer gives for the tree of a schema is read again, though not always as the same tree: a
repetition of the root is dropped, and the length of a leaf may be. If the primitives were made as
they should be, nothing but the depth of the tree can stand in the way. The reader goes depth first,
so it reads all that comes before the first node that lies too deep, and stops there.
-/

namespace ParquetFooter

open Record

/-- The element of a primitive that was made keeps to what is asked of an element. -/
theorem Primitive.listed_sound {leaf : Primitive} (made : leaf.Made) : leaf.listed.Sound where
  arity_nonneg := Int.le_refl 0
  repetition := (made_iff.mp made).1
  length := by
    intro _ fixed
    have given := (made_iff.mp made).2 (Option.some.inj fixed)
    exact ⟨leaf.length, if_pos given, given⟩

/-- The element of a group with a repetition and few children keeps to what is asked. -/
theorem Heading.element_sound {heading : Heading} {count : Nat} (small : count < 2 ^ 31)
    (given : heading.repetition.isSome) : (heading.element count).Sound where
  arity_nonneg := by
    rw [element_arity small]
    exact Int.natCast_nonneg count
  repetition := given
  length := fun isLeaf => absurd isLeaf (heading.element_not_isLeaf count)

namespace Node

/-- The number of children of a node can be written. -/
def FewChildren : Node → Prop
  | primitive _ => True
  | group _ children => children.length < 2 ^ 31

instance : DecidablePred FewChildren
  | primitive _ => .isTrue trivial
  | group _ children => inferInstanceAs (Decidable (children.length < 2 ^ 31))

/-- A node that can be written below a root, and read again if it does not lie too deep. -/
structure Legible (node : Node) : Prop where
  made : node.Made
  given : node.repetition?.isSome
  few : node.FewChildren

/-- Legible trees that do not nest too deeply are flattened to as many trees. -/
theorem stretch_listingAll {depth levels : Nat} {nodes : List Node}
    (legible : ∀ entry ∈ withDepthsAll depth nodes, entry.2.Legible)
    (shallow : ∀ entry ∈ withDepthsAll depth nodes, entry.1 < depth + levels) :
    Stretch levels nodes.length (listingAll nodes) := by
  induction nodes using forest_induction generalizing depth levels with
  | nil => exact .nil levels
  | primitive leaf beside ih =>
      rw [forall_mem_primitive_cons_iff] at legible shallow
      cases levels with
      | zero => exact absurd shallow.1 (Nat.lt_irrefl depth)
      | succ levels =>
          apply stretch_cons_iff.mpr
          exact ⟨Primitive.listed_sound legible.1.made, [], listingAll beside, rfl, .nil levels,
            ih legible.2 shallow.2⟩
  | group heading children beside inner ih =>
      rw [forall_mem_group_cons_iff] at legible shallow
      cases levels with
      | zero => exact absurd shallow.1.1 (Nat.lt_irrefl depth)
      | succ levels =>
          have small : children.length < 2 ^ 31 := legible.1.1.few
          have below : Stretch levels children.length (listingAll children) := by
            apply inner legible.1.2
            intro entry member
            have bound := shallow.1.2 entry member
            omega
          apply stretch_cons_iff.mpr
          refine ⟨heading.element_sound small legible.1.1.given, listingAll children,
            listingAll beside, rfl, ?_, ih legible.2 shallow.2⟩
          rwa [Heading.element_arity small, Int.toNat_natCast]

/-- The elements of legible trees that do not nest too deeply are read as some trees. -/
theorem exists_times_listingAll (total : Nat) {depth levels : Nat} {nodes : List Node}
    (legible : ∀ entry ∈ withDepthsAll depth nodes, entry.2.Legible)
    (shallow : ∀ entry ∈ withDepthsAll depth nodes, entry.1 < depth + levels)
    (rest : List SchemaElement) :
    ∃ again, again.length = nodes.length ∧
      Reader.times (readTree total levels false) nodes.length (listingAll nodes ++ rest) =
        .ok (again, rest) := by
  obtain ⟨again, counted, parse⟩ := (stretch_listingAll legible shallow).exists_parse rest
  refine ⟨again, counted, ?_⟩
  rw [← counted]
  exact times_readTree_eq_ok.mpr parse

/-- The elements of one legible tree that does not nest too deeply are read as some tree. -/
theorem exists_readTree_listing {total depth levels : Nat} {node : Node}
    (legible : ∀ entry ∈ node.withDepths depth, entry.2.Legible)
    (shallow : ∀ entry ∈ node.withDepths depth, entry.1 < depth + levels)
    (rest : List SchemaElement) :
    ∃ again, readTree total levels false (node.listing ++ rest) = .ok (again, rest) := by
  rw [← withDepthsAll_singleton] at legible shallow
  obtain ⟨_, -, read⟩ := exists_times_listingAll total legible shallow rest
  rw [listingAll_singleton] at read
  obtain ⟨again, _, _, head, ended, -⟩ := Reader.times_succ_eq_ok.mp read
  obtain ⟨-, rfl⟩ := Prod.mk.inj (Except.ok.inj ended)
  exact ⟨again, head⟩

/-- A group cannot be read where its children cannot. -/
theorem readTree_group_of_error {total levels : Nat} {atRoot : Bool} {heading : Heading}
    {children : List Node} {rest : List SchemaElement} {fault : Fault}
    (small : children.length < 2 ^ 31) (given : atRoot = false → heading.repetition.isSome)
    (stopped : Reader.times (readTree total levels false) children.length
      (listingAll children ++ rest) = .error fault) :
    readTree total (levels + 1) atRoot ((group heading children).listing ++ rest) =
      .error fault := by
  have counted : childCount atRoot (heading.element children.length) = .ok children.length :=
    childCount_eq_ok.mpr ⟨Heading.element_arity small, given⟩
  rw [listing, List.cons_append,
    readTree_eq_of_not_isLeaf (heading.element_not_isLeaf children.length)]
  apply Except.bind_eq_error.mpr
  exact .inr ⟨_, counted, Except.bind_eq_error.mpr (.inl stopped)⟩

/-- Some node of a tree lies too deep where there are `levels` levels. -/
def TooDeep (levels depth : Nat) (entries : List (Nat × Node)) : Prop :=
  ∃ entry ∈ entries, depth + levels ≤ entry.1

/-- Where a tree or one beside it is too deep, reading stops, as long as each would stop it. -/
theorem times_readTree_cons_of_deep {total depth levels : Nat} {node : Node} {beside : List Node}
    (legible : ∀ entry ∈ node.withDepths depth, entry.2.Legible) {rest : List SchemaElement}
    (first : TooDeep levels depth (node.withDepths depth) →
      readTree total levels false (node.listing ++ (listingAll beside ++ rest)) =
        .error (.defect (.schemaNesting maxDepth)))
    (others : TooDeep levels depth (withDepthsAll depth beside) →
      Reader.times (readTree total levels false) beside.length (listingAll beside ++ rest) =
        .error (.defect (.schemaNesting maxDepth)))
    (deep : TooDeep levels depth (withDepthsAll depth (node :: beside))) :
    Reader.times (readTree total levels false) (node :: beside).length
      (listingAll (node :: beside) ++ rest) = .error (.defect (.schemaNesting maxDepth)) := by
  rw [List.length_cons, Reader.times_succ_eq_error, listingAll, List.append_assoc]
  by_cases firstDeep : TooDeep levels depth (node.withDepths depth)
  · exact .inl (first firstDeep)
  · right
    have shallow : ∀ entry ∈ node.withDepths depth, entry.1 < depth + levels :=
      fun entry member => Nat.lt_of_not_le fun bound => firstDeep ⟨entry, member, bound⟩
    obtain ⟨again, read⟩ :=
      exists_readTree_listing legible shallow (listingAll beside ++ rest)
    refine ⟨again, _, read, others ?_⟩
    obtain ⟨entry, member, bound⟩ := deep
    rcases List.mem_append.mp member with inside | behind
    · exact absurd ⟨entry, inside, bound⟩ firstDeep
    · exact ⟨entry, behind, bound⟩

/-- Reading stops at the first node that lies too deep. -/
theorem times_readTree_of_deep {total depth levels : Nat} {nodes : List Node}
    (legible : ∀ entry ∈ withDepthsAll depth nodes, entry.2.Legible)
    (deep : TooDeep levels depth (withDepthsAll depth nodes)) (rest : List SchemaElement) :
    Reader.times (readTree total levels false) nodes.length (listingAll nodes ++ rest) =
      .error (.defect (.schemaNesting maxDepth)) := by
  induction nodes using forest_induction generalizing depth levels rest with
  | nil =>
      obtain ⟨entry, member, -⟩ := deep
      cases member
  | primitive leaf beside ih =>
      rw [withDepthsAll, List.forall_mem_append] at legible
      refine times_readTree_cons_of_deep legible.1 ?_ (fun behind => ih legible.2 behind _) deep
      -- Nothing lies below a primitive, so it is itself too deep, and no level is left for it.
      rintro ⟨entry, member, bound⟩
      obtain rfl := List.mem_singleton.mp member
      obtain rfl : levels = 0 := by
        change depth + levels ≤ depth at bound
        omega
      rfl
  | group heading children beside inner ih =>
      rw [withDepthsAll, List.forall_mem_append] at legible
      refine times_readTree_cons_of_deep legible.1 ?_ (fun behind => ih legible.2 behind _) deep
      rw [withDepths, List.forall_mem_cons] at legible
      rintro ⟨entry, member, bound⟩
      cases levels with
      | zero => rfl
      | succ levels =>
          -- There is a level for the group, so what lies too deep lies below it.
          have below : TooDeep levels (depth + 1) (withDepthsAll (depth + 1) children) := by
            rcases List.mem_cons.mp member with rfl | inside
            · exact absurd bound (by simp)
            · exact ⟨entry, inside, by omega⟩
          apply readTree_group_of_error legible.1.1.few fun _ => legible.1.1.given
          exact inner legible.1.2 below _

/-- A schema is flattened to one leaf for every branch. -/
theorem length_leafElements_listingAll (nodes : List Node) :
    (leafElements (listingAll nodes)).length = (branchesAll nodes).length := by
  induction nodes using forest_induction with
  | nil => rfl
  | primitive leaf beside ih =>
      rw [listingAll, listing, List.singleton_append, leafElements_cons_of_isLeaf ⟨rfl, rfl⟩,
        branchesAll, branches, List.singleton_append, List.length_cons, List.length_cons, ih]
  | group heading children beside inner ih =>
      rw [listingAll, listing, List.cons_append,
        leafElements_cons_of_not_isLeaf (heading.element_not_isLeaf children.length),
        leafElements_append, branchesAll, branches, List.length_append, List.length_append,
        List.length_map, inner, ih]

end Node

open Node

namespace Schema

/-- The tree of a schema is a group, and all nodes below it have a repetition. -/
theorem group_of_ofNode {root : Node} {schema : Schema} (made : ofNode root = .ok schema) :
    schema.root = root ∧ ∃ heading children, root = .group heading children ∧
      schema.numColumns = (branchesAll children).length ∧
      ∀ entry ∈ withDepthsAll 1 children, entry.2.repetition?.isSome := by
  cases root with
  | primitive leaf => cases made
  | group heading children =>
      obtain ⟨given, rfl⟩ := ofNode_group_eq_ok.mp made
      refine ⟨rfl, heading, children, rfl, ?_, given⟩
      rw [← map_snd_branchesFrom 0, List.length_map]
      exact List.length_map _

/-- The tree of a schema is flattened to its listing. -/
theorem flatten_of_ofNode {root : Node} {schema : Schema} (made : ofNode root = .ok schema) :
    root.flatten = .ok root.listing := by
  obtain ⟨-, heading, children, rfl, -, given⟩ := group_of_ofNode made
  exact flatten_eq fun entry member => complete_of_given (given entry member)

/-- The nodes below the root of a schema are legible when they were made and have few children. -/
theorem legible_of_ofNode {heading : Heading} {children : List Node} {schema : Schema}
    (described : ofNode (.group heading children) = .ok schema)
    (made : ∀ entry ∈ (group heading children).withDepths 0, entry.2.Made)
    (few : ∀ entry ∈ (group heading children).withDepths 0, entry.2.FewChildren) :
    ∀ entry ∈ withDepthsAll 1 children, entry.2.Legible := by
  obtain ⟨given, -⟩ := ofNode_group_eq_ok.mp described
  rw [withDepths, List.forall_mem_cons] at made few
  exact fun entry member => ⟨made.2 entry member, given entry member, few.2 entry member⟩

/-- What is written for the tree of a schema is read again as a schema with as many columns. -/
theorem exists_reread {root : Node} {schema : Schema} (described : ofNode root = .ok schema)
    (made : ∀ entry ∈ root.withDepths 0, entry.2.Made)
    (few : ∀ entry ∈ root.withDepths 0, entry.2.FewChildren)
    (shallow : ∀ entry ∈ root.withDepths 0, entry.1 ≤ 128) :
    ∃ again reread, ofElements root.listing = .ok again ∧ ofNode again = .ok reread ∧
      reread.numColumns = schema.numColumns := by
  obtain ⟨-, heading, children, rfl, columns, -⟩ := group_of_ofNode described
  have legible := legible_of_ofNode described made few
  rw [withDepths, List.forall_mem_cons] at few shallow
  have within : ∀ entry ∈ withDepthsAll 1 children, entry.1 < 1 + maxDepth := by
    intro entry member
    have bound := shallow.2 entry member
    rw [maxDepth]
    omega
  obtain ⟨nodes, counted, parse⟩ := (stretch_listingAll legible within).exists_parse []
  rw [List.append_nil] at parse
  have notLeaf := heading.element_not_isLeaf children.length
  have arity : (heading.element children.length).arity = (nodes.length : Int) := by
    rw [Heading.element_arity few.1, counted]
  have read : ofElements (listing (.group heading children)) = .ok _ :=
    ofElements_eq_ok.mpr ⟨_, _, nodes, by rw [listing], notLeaf, arity, rfl, parse⟩
  obtain ⟨reread, remade, -, -⟩ := (rooted_of_ofElements read).exists_schema
  refine ⟨_, reread, read, remade, ?_⟩
  rw [numColumns_eq read remade, columns, listing, leafElements_cons_of_not_isLeaf notLeaf,
    length_leafElements_listingAll]

/-- A tree with a node more than 128 levels below its root is refused for that alone. -/
theorem ofElements_listing_of_deep {root : Node} {schema : Schema}
    (described : ofNode root = .ok schema) (made : ∀ entry ∈ root.withDepths 0, entry.2.Made)
    (few : ∀ entry ∈ root.withDepths 0, entry.2.FewChildren)
    (deep : ∃ entry ∈ root.withDepths 0, 128 < entry.1) :
    ofElements root.listing = .error (.defect (.schemaNesting 128)) := by
  obtain ⟨-, heading, children, rfl, -, -⟩ := group_of_ofNode described
  have legible := legible_of_ofNode described made few
  rw [withDepths, List.forall_mem_cons] at few
  have below : TooDeep maxDepth 1 (withDepthsAll 1 children) := by
    obtain ⟨entry, member, bound⟩ := deep
    rw [withDepths] at member
    rcases List.mem_cons.mp member with rfl | inside
    · exact absurd bound (by simp)
    · exact ⟨entry, inside, by rw [maxDepth]; omega⟩
  have stopped : readTree (listing (.group heading children)).length (maxDepth + 1) true
      (listing (.group heading children) ++ []) = .error (.defect (.schemaNesting maxDepth)) :=
    readTree_group_of_error few.1 (fun lower => Bool.noConfusion lower)
      (times_readTree_of_deep legible below [])
  rw [List.append_nil, listing] at stopped
  rw [ofElements, listing]
  apply Except.bind_eq_error.mpr
  left
  rw [readTrees]
  exact Except.bind_eq_error.mpr (.inl stopped)

end Schema

end ParquetFooter
