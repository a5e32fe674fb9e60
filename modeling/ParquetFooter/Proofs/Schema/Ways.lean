import ParquetFooter.Proofs.Schema.Levels

/-! # Ways to the columns of a schema

Children are numbered, so a branch of a tree is told by the indices of the children on it. In
depth-first order these lists of indices ascend lexicographically. The columns of a schema are
compared with all ways that lead to a leaf, in that order: each way gives one column, with the names
on its branch, the exact counts of its levels and its first index.
-/

namespace ParquetFooter

namespace Node

/-- The indices of children that lead down a branch of some trees to its leaf. -/
inductive Leads : List Node → List Nat → Branch → Prop
  | leaf {nodes : List Node} {index : Nat} {leaf : Primitive}
      (found : nodes[index]? = some (primitive leaf)) : Leads nodes [index] ⟨[primitive leaf], leaf⟩
  | group {nodes children : List Node} {index : Nat} {heading : Heading} {below : List Nat}
      {branch : Branch} (found : nodes[index]? = some (group heading children))
      (inner : Leads children below branch) :
      Leads nodes (index :: below) (branch.under (group heading children))

mutual

/-- The branches of a tree that is the child with some index, each with the indices that lead down
it. -/
def ways (index : Nat) : Node → List (List Nat × Branch)
  | primitive leaf => [([index], ⟨[primitive leaf], leaf⟩)]
  | group heading children =>
    (waysFrom 0 children).map fun way => (index :: way.1, way.2.under (group heading children))

/-- The ways into several trees, of which the first is the child with some index. -/
def waysFrom (index : Nat) : List Node → List (List Nat × Branch)
  | [] => []
  | node :: nodes => node.ways index ++ waysFrom (index + 1) nodes

end

/-- The primitive that a node is. -/
def leaf? : Node → Option Primitive
  | primitive leaf => some leaf
  | group _ _ => none

/-- The ways into some trees go down their branches, in order. -/
theorem map_snd_waysFrom (index : Nat) (nodes : List Node) :
    (waysFrom index nodes).map Prod.snd = branchesAll nodes := by
  induction nodes using forest_induction generalizing index with
  | nil => rfl
  | primitive leaf beside ih =>
      rw [waysFrom, List.map_append, ih (index + 1)]
      rfl
  | group heading children beside inner ih =>
      rw [waysFrom, List.map_append, ih (index + 1), branchesAll, branches, ← inner 0, ways,
        List.map_map, List.map_map]
      rfl

/-- The first index of a way is the child that it enters. -/
theorem map_head_waysFrom (index : Nat) (nodes : List Node) :
    (waysFrom index nodes).map (fun way => (way.1.headD 0, way.2)) = branchesFrom index nodes := by
  induction nodes generalizing index with
  | nil => rfl
  | cons node nodes ih =>
      rw [waysFrom, List.map_append, ih (index + 1), branchesFrom_cons]
      cases node with
      | primitive leaf => rfl
      | group heading children =>
          rw [branches, ← map_snd_waysFrom 0, ways, List.map_map, List.map_map, List.map_map]
          rfl

/-- One more tree in front moves a way by one child. -/
theorem Leads.beside {node : Node} {nodes : List Node} {index : Nat} {below : List Nat}
    {branch : Branch} (leads : Leads nodes (index :: below) branch) :
    Leads (node :: nodes) ((index + 1) :: below) branch := by
  cases leads with
  | leaf found => exact .leaf found
  | group found inner => exact .group found inner

/-- A way leads down its branch where the first of some trees is the child with the given index. -/
def LeadsFrom (index : Nat) (nodes : List Node) (way : List Nat × Branch) : Prop :=
  ∃ place below, way.1 = (index + place) :: below ∧ Leads nodes (place :: below) way.2

/-- A way that starts behind the first tree also leads down its branch among all trees. -/
theorem LeadsFrom.beside {index : Nat} {node : Node} {nodes : List Node} {way : List Nat × Branch}
    (leads : LeadsFrom (index + 1) nodes way) : LeadsFrom index (node :: nodes) way := by
  obtain ⟨place, below, indices, leads⟩ := leads
  rw [Nat.add_right_comm] at indices
  exact ⟨place + 1, below, indices, leads.beside⟩

/-- Every way in the list leads down its branch. -/
theorem leadsFrom_of_mem_waysFrom {index : Nat} {nodes : List Node} :
    ∀ way ∈ waysFrom index nodes, LeadsFrom index nodes way := by
  induction nodes using forest_induction generalizing index with
  | nil => exact List.forall_mem_nil _
  | primitive leaf beside ih =>
      rw [waysFrom, ways, List.forall_mem_append, List.forall_mem_singleton]
      exact ⟨⟨0, [], rfl, .leaf rfl⟩, fun way member => (ih way member).beside⟩
  | group heading children beside inner ih =>
      rw [waysFrom, ways, List.forall_mem_append, List.forall_mem_map]
      refine ⟨?_, fun way member => (ih way member).beside⟩
      intro way member
      obtain ⟨place, below, indices, leads⟩ := inner way member
      rw [Nat.zero_add] at indices
      exact ⟨0, way.1, rfl, .group rfl (indices ▸ leads)⟩

/-- The ways of each tree are among those of all, numbered by the place of the tree. -/
theorem mem_waysFrom {index place : Nat} {nodes : List Node} {node : Node}
    (found : nodes[place]? = some node) {way : List Nat × Branch}
    (member : way ∈ node.ways (index + place)) : way ∈ waysFrom index nodes := by
  induction nodes generalizing index place with
  | nil => exact nomatch found
  | cons first others ih =>
      rw [waysFrom, List.mem_append]
      cases place with
      | zero =>
          obtain rfl := Option.some.inj found
          exact .inl member
      | succ place =>
          rw [← Nat.add_assoc, Nat.add_right_comm] at member
          exact .inr (ih found member)

/-- All ways are listed. -/
theorem mem_waysFrom_iff {nodes : List Node} {indices : List Nat} {branch : Branch} :
    (indices, branch) ∈ waysFrom 0 nodes ↔ Leads nodes indices branch := by
  constructor
  · intro member
    obtain ⟨place, below, rfl, leads⟩ := leadsFrom_of_mem_waysFrom _ member
    rwa [Nat.zero_add]
  · intro leads
    induction leads with
    | @leaf nodes index leaf found =>
        apply mem_waysFrom found
        rw [Nat.zero_add]
        exact List.mem_singleton_self _
    | @group nodes children index heading below branch found inner ih =>
        apply mem_waysFrom found
        rw [Nat.zero_add]
        exact List.mem_map_of_mem ih

/-- Ways are listed in the lexicographic order of their indices. -/
theorem waysFrom_ascending (index : Nat) (nodes : List Node) :
    (waysFrom index nodes).Pairwise fun left right => left.1 < right.1 := by
  have apart {index : Nat} {below : List Nat} {beside : List Node} :
      ∀ way ∈ waysFrom (index + 1) beside, index :: below < way.1 := by
    intro way member
    obtain ⟨place, others, indices, -⟩ := leadsFrom_of_mem_waysFrom way member
    rw [indices, List.cons_lt_cons_iff]
    exact .inl (by omega)
  induction nodes using forest_induction generalizing index with
  | nil => exact .nil
  | primitive leaf beside ih =>
      rw [waysFrom, ways, List.singleton_append, List.pairwise_cons]
      exact ⟨apart, ih (index + 1)⟩
  | group heading children beside inner ih =>
      rw [waysFrom, ways, List.pairwise_append, List.pairwise_map, List.forall_mem_map]
      refine ⟨?_, ih (index + 1), fun way _ => apart⟩
      apply (inner 0).imp
      intro left right before
      exact List.cons_lt_cons_iff.mpr (.inr ⟨rfl, before⟩)

/-- The leaves at the ends of the branches are the primitives among the nodes, in order. -/
theorem map_leaf_branchesAll (depth : Nat) (nodes : List Node) :
    (branchesAll nodes).map Branch.leaf =
      (withDepthsAll depth nodes).filterMap fun entry => entry.2.leaf? := by
  induction nodes using forest_induction generalizing depth with
  | nil => rfl
  | primitive leaf beside ih =>
      rw [branchesAll, withDepthsAll, List.map_append, List.filterMap_append, ← ih depth]
      rfl
  | group heading children beside inner ih =>
      rw [branchesAll, withDepthsAll, List.map_append, List.filterMap_append, ← ih depth, branches,
        withDepths, List.filterMap_cons, ← inner (depth + 1), List.map_map]
      rfl

/-- Levels are counted at every node, so leaves are found only where all have a repetition. -/
theorem given_of_leavesAll {depth : Nat} {nodes : List Node} {position : Position}
    {leaves : List Leaf} (counted : leavesAll position nodes = .ok leaves) :
    ∀ entry ∈ withDepthsAll depth nodes, entry.2.repetition?.isSome := by
  induction nodes using forest_induction generalizing depth position leaves with
  | nil => exact List.forall_mem_nil _
  | primitive leaf beside ih =>
      obtain ⟨_, top, others⟩ := Except.bind_eq_ok.mp counted
      obtain ⟨_, behind, -⟩ := Except.bind_eq_ok.mp others
      rw [forall_mem_primitive_cons_iff]
      rw [Node.leaves] at top
      cases given : leaf.repetition with
      | none => simp only [given, reduceCtorEq] at top
      | some repetition => exact ⟨Option.isSome_of_eq_some given, ih behind⟩
  | group heading children beside inner ih =>
      obtain ⟨_, below, others⟩ := Except.bind_eq_ok.mp counted
      obtain ⟨_, behind, -⟩ := Except.bind_eq_ok.mp others
      rw [forall_mem_group_cons_iff]
      rw [Node.leaves] at below
      cases given : heading.repetition with
      | none => simp only [given, reduceCtorEq] at below
      | some repetition =>
          simp only [given] at below
          exact ⟨⟨Option.isSome_of_eq_some given, inner below⟩, ih behind⟩

/-- The same holds where every tree is counted as a child of the root. -/
theorem given_of_leavesFrom {index : Nat} {nodes : List Node} {leaves : List Leaf}
    (counted : leavesFrom index nodes = .ok leaves) :
    ∀ entry ∈ withDepthsAll 1 nodes, entry.2.repetition?.isSome := by
  induction nodes generalizing index leaves with
  | nil => exact List.forall_mem_nil _
  | cons node nodes ih =>
      obtain ⟨first, top, others⟩ := Except.bind_eq_ok.mp counted
      obtain ⟨_, behind, -⟩ := Except.bind_eq_ok.mp others
      have alone : leavesAll ⟨index, [], 0, 0⟩ [node] = .ok (first ++ []) := by
        rw [leavesAll, top]
        rfl
      rw [withDepthsAll, List.forall_mem_append, ← withDepthsAll_singleton]
      exact ⟨given_of_leavesAll alone, ih behind⟩

end Node

open Node

namespace Schema

/-- A group is the root of a schema exactly when all nodes below it have a repetition, and the
columns are then at the ends of its branches. -/
theorem ofNode_group_eq_ok {heading : Heading} {children : List Node} {schema : Schema} :
    ofNode (.group heading children) = .ok schema ↔
      (∀ entry ∈ withDepthsAll 1 children, entry.2.repetition?.isSome) ∧
        schema = ⟨.group heading children, (branchesFrom 0 children).map rootLeaf⟩ := by
  constructor
  · intro made
    obtain ⟨leaves, counted, same⟩ := Except.bind_eq_ok.mp made
    obtain rfl := Except.ok.inj same
    have given := given_of_leavesFrom counted
    obtain rfl := Except.ok.inj ((leavesFrom_eq given 0).symm.trans counted)
    exact ⟨given, rfl⟩
  · rintro ⟨given, rfl⟩
    exact Except.bind_eq_ok.mpr ⟨_, leavesFrom_eq given 0, rfl⟩

/-- The column with an index is the leaf with that index. -/
theorem column_of_leaf {schema : Schema} {index : Nat} {leaf : Leaf}
    (found : schema.leaves[index]? = some leaf) : schema.column index = .ok leaf.toColumn := by
  rw [column, found]

/-- The child of the root that a column lies in is what its leaf says. -/
theorem rootIndex_eq_ok {schema : Schema} {index child : Nat} :
    schema.rootIndex index = .ok child ↔
      ∃ leaf, schema.leaves[index]? = some leaf ∧ leaf.rootIndex = child := by
  rw [rootIndex]
  cases schema.leaves[index]? with
  | none => simp
  | some leaf => simp

/-- Where leaves come in the order of the children of the root, so do the answers for columns. -/
theorem le_of_rootIndex {schema : Schema}
    (sorted : schema.leaves.Pairwise fun left right => left.rootIndex ≤ right.rootIndex)
    {left right first second : Nat} (le : left ≤ right) (before : schema.rootIndex left = .ok first)
    (behind : schema.rootIndex right = .ok second) : first ≤ second := by
  obtain ⟨leftLeaf, leftFound, rfl⟩ := rootIndex_eq_ok.mp before
  obtain ⟨rightLeaf, rightFound, rfl⟩ := rootIndex_eq_ok.mp behind
  rcases Nat.lt_or_eq_of_le le with less | rfl
  · obtain ⟨leftInside, rfl⟩ := List.getElem?_eq_some_iff.mp leftFound
    obtain ⟨rightInside, rfl⟩ := List.getElem?_eq_some_iff.mp rightFound
    exact List.pairwise_iff_getElem.mp sorted left right leftInside rightInside less
  · obtain rfl := Option.some.inj (leftFound.symm.trans rightFound)
    exact Nat.le_refl _

/-- The columns of a schema are what the trees below its root say. -/
structure Charts (schema : Schema) (children : List Node) : Prop where
  /-- One column for every primitive, depth first. -/
  primitives : schema.leaves.map (·.node) =
    (withDepthsAll 1 children).filterMap fun entry => entry.2.leaf?
  /-- One column for every way to a leaf, by its indices, and each tells of the branch there. -/
  ways : ∃ ways : List (List Nat × Branch),
    ways.length = schema.numColumns ∧
    ways.Pairwise (fun left right => left.1 < right.1) ∧
    (∀ indices branch, (indices, branch) ∈ ways ↔ Leads children indices branch) ∧
    ∀ index indices branch, ways[index]? = some (indices, branch) →
      ∃ (leaf : Leaf) (child : Nat) (below : List Nat),
        schema.column index = .ok leaf.toColumn ∧ leaf.Tells branch ∧
        indices = child :: below ∧ schema.rootIndex index = .ok child
  ascending : ∀ left right first second, left ≤ right → schema.rootIndex left = .ok first →
    schema.rootIndex right = .ok second → first ≤ second
  outside : ∀ index, schema.numColumns ≤ index →
    schema.rootIndex index = .error (.indexOutOfBound index schema.numColumns)

end Schema

namespace Node

/-- The leaf of a way. -/
def wayLeaf (way : List Nat × Branch) : Leaf := rootLeaf (way.1.headD 0, way.2)

/-- The leaves of the ways below a root are those at the ends of its branches. -/
theorem map_wayLeaf (children : List Node) :
    (waysFrom 0 children).map wayLeaf = (branchesFrom 0 children).map rootLeaf := by
  rw [← map_head_waysFrom, List.map_map]
  rfl

/-- Columns never go back to an earlier child of the root. -/
theorem rootIndex_mono (children : List Node) :
    ((waysFrom 0 children).map wayLeaf).Pairwise fun left right =>
      left.rootIndex ≤ right.rootIndex := by
  rw [List.pairwise_map]
  apply (waysFrom_ascending 0 children).imp_of_mem
  intro left right leftMember rightMember before
  obtain ⟨first, _, leftWay, -⟩ := leadsFrom_of_mem_waysFrom left leftMember
  obtain ⟨second, _, rightWay, -⟩ := leadsFrom_of_mem_waysFrom right rightMember
  rw [leftWay, rightWay, List.cons_lt_cons_iff] at before
  simp only [wayLeaf, rootLeaf, Position.follow, leftWay, rightWay, List.headD_cons]
  omega

/-- The leaves of the ways below a root chart its trees, where levels do not overflow. -/
theorem charts_of_ways {root : Node} {children : List Node}
    (short : ∀ branch ∈ branchesAll children, branch.nodes.length < 2 ^ 15) :
    Schema.Charts ⟨root, (waysFrom 0 children).map wayLeaf⟩ children where
  primitives := by
    rw [← map_leaf_branchesAll, ← map_snd_waysFrom 0, List.map_map, List.map_map]
    rfl
  ways := by
    refine ⟨waysFrom 0 children, (List.length_map _).symm, waysFrom_ascending 0 children,
      fun _ _ => mem_waysFrom_iff, ?_⟩
    intro index indices branch found
    have member := List.mem_of_getElem? found
    have onBranch : branch ∈ branchesAll children := by
      rw [← map_snd_waysFrom 0]
      exact List.mem_map_of_mem member
    have leaf : ((waysFrom 0 children).map wayLeaf)[index]? = some (wayLeaf (indices, branch)) := by
      rw [List.getElem?_map, found]
      rfl
    obtain ⟨child, below, rfl, -⟩ := leadsFrom_of_mem_waysFrom _ member
    exact ⟨_, _, below, Schema.column_of_leaf leaf, rootLeaf_tells (short branch onBranch), rfl,
      Schema.rootIndex_eq_ok.mpr ⟨_, leaf, rfl⟩⟩
  ascending := fun _ _ _ _ => Schema.le_of_rootIndex (rootIndex_mono children)
  outside := by
    intro index outside
    rw [Schema.rootIndex, List.getElem?_eq_none outside]

end Node

namespace Schema

/-- **The columns of a schema are the ways to the leaves of its tree.** A tree whose branches are
shorter than 16 bit levels can count has a schema exactly when every node below the root has a
repetition. Whatever the shape of the tree, the columns are then its primitives in depth-first
order, each with the names on its branch and the exact levels, and the child of the root that a
column lies in is the first index on the way to it. -/
theorem ofNode_charts {heading : Heading} {children : List Node}
    (shallow : ∀ entry ∈ (group heading children).withDepths 0, entry.1 < 2 ^ 15) :
    ((∃ schema, ofNode (.group heading children) = .ok schema) ↔
      ∀ entry ∈ (group heading children).withDepths 0, 0 < entry.1 →
        entry.2.repetition?.isSome) ∧
    ∀ schema, ofNode (.group heading children) = .ok schema →
      schema.root = .group heading children ∧ schema.Charts children := by
  rw [forall_mem_below_iff]
  constructor
  · constructor
    · rintro ⟨schema, made⟩
      exact (ofNode_group_eq_ok.mp made).1
    · exact fun given => ⟨_, ofNode_group_eq_ok.mpr ⟨given, rfl⟩⟩
  · intro schema made
    obtain ⟨-, rfl⟩ := ofNode_group_eq_ok.mp made
    refine ⟨rfl, ?_⟩
    rw [← map_wayLeaf]
    apply charts_of_ways
    intro branch member
    rw [withDepths, List.forall_mem_cons] at shallow
    have within : ∀ entry ∈ withDepthsAll 1 children, entry.1 ≤ 2 ^ 15 - 1 :=
      fun entry inside => Nat.le_sub_one_of_lt (shallow.2 entry inside)
    have bound := length_le_of_mem_branchesAll within branch member
    omega

/-- A root with a repetition of its own, above an empty group, a deep branch and a shallow one. -/
def unevenChildren : List Node :=
  [.group ⟨"empty", some .optional, none⟩ [],
    .group ⟨"deep", some .repeated, none⟩
      [.group ⟨"inner", some .optional, some 3⟩
        [.primitive ⟨"x", some .required, .double, 7, none⟩]],
    .primitive ⟨"flat", some .optional, .float, -1, none⟩]

/-- The uneven tree has two columns, in the second and the third child of its root. -/
theorem ofNode_charts_uneven :
    (∀ entry ∈ (group ⟨"root", some .required, none⟩ unevenChildren).withDepths 0,
      entry.1 < 2 ^ 15) ∧
    ∃ schema, ofNode (.group ⟨"root", some .required, none⟩ unevenChildren) = .ok schema ∧
      schema.Charts unevenChildren ∧
      schema.leaves.map (fun leaf => (leaf.path.parts, leaf.maxDefinitionLevel.toInt,
        leaf.maxRepetitionLevel.toInt, leaf.rootIndex)) =
        [(["deep", "inner", "x"], 2, 1, 1), (["flat"], 1, 0, 2)] := by
  have shallow : ∀ entry ∈ (group ⟨"root", some .required, none⟩ unevenChildren).withDepths 0,
      entry.1 < 2 ^ 15 := by decide
  obtain ⟨iff, charts⟩ := ofNode_charts shallow
  obtain ⟨schema, made⟩ := iff.mpr (by decide)
  refine ⟨shallow, schema, made, (charts schema made).2, ?_⟩
  obtain rfl := Except.ok.inj made
  decide

end Schema

end ParquetFooter
