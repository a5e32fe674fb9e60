import ParquetFooter.Proofs.Reader
import ParquetFooter.Proofs.Schema.Forest
import ParquetFooter.Schema.Basic
import Mathlib.Algebra.Group.Nat.Defs

/-! # Branches and levels

A leaf of a schema tree lies at the end of a branch: the nodes from a child of the root down to it.
The columns of a schema are its branches in depth-first order. The path of a column is made of the
names on its branch, and its levels count the nodes there that are not required and those that are
repeated. As 16 bit integers the levels are these counts as long as branches are short.
-/

namespace ParquetFooter

/-- The nodes from the top of a tree down to one of its leaves. -/
structure Branch where
  /-- The nodes, the leaf among them, from the top. -/
  nodes : List Node
  /-- The leaf that the branch ends in. -/
  leaf : Primitive

namespace Branch

/-- A branch with one more node at its top. -/
def under (node : Node) (branch : Branch) : Branch := ⟨node :: branch.nodes, branch.leaf⟩

/-- The names on a branch. -/
def names (branch : Branch) : List String := branch.nodes.map Node.name

/-- How many nodes of a branch are not required. -/
def definitionLevel (branch : Branch) : Nat := branch.nodes.countP Node.isOptional

/-- How many nodes of a branch are repeated. -/
def repetitionLevel (branch : Branch) : Nat :=
  branch.nodes.countP fun node => decide (node.repetition? = some .repeated)

/-- A branch has no more optional nodes than nodes. -/
theorem definitionLevel_le (branch : Branch) : branch.definitionLevel ≤ branch.nodes.length :=
  List.countP_le_length

/-- A repeated node counts as one that may be missing too. -/
theorem repetitionLevel_le (branch : Branch) :
    branch.repetitionLevel ≤ branch.definitionLevel := by
  apply List.countP_mono_left
  intro node _ isRepeated
  rw [Node.isOptional, of_decide_eq_true isRepeated]
  rfl

end Branch

namespace Node

mutual

/-- The branches of a tree, depth first. -/
def branches : Node → List Branch
  | primitive leaf => [⟨[primitive leaf], leaf⟩]
  | group heading children => (branchesAll children).map (Branch.under (group heading children))

/-- The branches of several trees, depth first. -/
def branchesAll : List Node → List Branch
  | [] => []
  | node :: nodes => node.branches ++ branchesAll nodes

end

end Node

namespace Position

/-- The leaf at the end of a branch that starts at a place. -/
def follow (position : Position) (branch : Branch) : Leaf where
  node := branch.leaf
  path := ⟨position.path ++ branch.names⟩
  maxDefinitionLevel := position.definition + Int16.ofNat branch.definitionLevel
  maxRepetitionLevel := position.repetition + Int16.ofNat branch.repetitionLevel
  rootIndex := position.rootIndex

/-- To enter a node and follow a branch is to follow the branch with the node at its top. -/
theorem follow_enter (position : Position) (node : Node) {repetition : Repetition}
    (given : node.repetition? = some repetition) (branch : Branch) :
    (position.enter node.name repetition).follow branch = position.follow (branch.under node) := by
  have shift (level : Int16) (count : Nat) :
      level + 1 + Int16.ofNat count = level + Int16.ofNat (count + 1) := by
    rw [Int16.ofNat_add, Int16.add_comm (Int16.ofNat count), ← Int16.add_assoc]
    rfl
  cases repetition <;>
    simp [follow, enter, Branch.names, Branch.under, Branch.definitionLevel,
      Branch.repetitionLevel, Node.isOptional, given, shift]

theorem follow_nil (position : Position) (leaf : Primitive) :
    position.follow ⟨[], leaf⟩ = position.leaf leaf := by
  simp [follow, Position.leaf, Branch.names, Branch.definitionLevel, Branch.repetitionLevel]

end Position

namespace Node

/-- Where every node has a repetition, the leaves of some trees are found by following their
branches. -/
theorem leavesAll_eq {depth : Nat} {nodes : List Node}
    (given : ∀ entry ∈ withDepthsAll depth nodes, entry.2.repetition?.isSome)
    (position : Position) :
    leavesAll position nodes = .ok ((branchesAll nodes).map position.follow) := by
  induction nodes using forest_induction generalizing depth position with
  | nil => rfl
  | primitive leaf beside ih =>
      rw [forall_mem_primitive_cons_iff] at given
      obtain ⟨repetition, top⟩ := Option.isSome_iff_exists.mp given.1
      have leafAlone := position.follow_enter (.primitive leaf) top ⟨[], leaf⟩
      rw [Position.follow_nil] at leafAlone
      rw [leavesAll, ih given.2 position, leaves, show leaf.repetition = some repetition from top,
        branchesAll, branches, List.map_append]
      exact congrArg (fun head => Except.ok ([head] ++ _)) leafAlone
  | group heading children beside inner ih =>
      rw [forall_mem_group_cons_iff] at given
      obtain ⟨⟨top, below⟩, others⟩ := given
      obtain ⟨repetition, top⟩ := Option.isSome_iff_exists.mp top
      have children := inner below (position.enter heading.name repetition)
      rw [leavesAll, ih others position, leaves, show heading.repetition = some repetition from top]
      simp only [children]
      rw [branchesAll, branches, List.map_append, List.map_map]
      refine congrArg (fun head => Except.ok (head ++ _)) (List.map_congr_left ?_)
      exact fun branch _ => position.follow_enter _ top branch

/-- The leaves of one tree are at the ends of its branches. -/
theorem leaves_eq {depth : Nat} {node : Node}
    (given : ∀ entry ∈ node.withDepths depth, entry.2.repetition?.isSome) (position : Position) :
    node.leaves position = .ok (node.branches.map position.follow) := by
  rw [← withDepthsAll_singleton] at given
  have alone := leavesAll_eq given position
  rw [leavesAll, Except.bind_eq_ok] at alone
  obtain ⟨leaves, read, same⟩ := alone
  rw [read, ← List.append_nil leaves, Except.ok.inj same, branchesAll, branchesAll, List.append_nil]

/-- The branches of the children of a root, of which the first has the given index, each with the
index of the child that it starts from. -/
def branchesFrom (index : Nat) (nodes : List Node) : List (Nat × Branch) :=
  (nodes.zipIdx index).flatMap fun child => child.1.branches.map fun branch => (child.2, branch)

theorem branchesFrom_cons (index : Nat) (node : Node) (nodes : List Node) :
    branchesFrom index (node :: nodes) =
      (node.branches.map fun branch => (index, branch)) ++ branchesFrom (index + 1) nodes := by
  rw [branchesFrom, List.zipIdx_cons, List.flatMap_cons]
  rfl

/-- The leaf at the end of a branch of a child of the root. -/
def rootLeaf (place : Nat × Branch) : Leaf :=
  (⟨place.1, [], 0, 0⟩ : Position).follow place.2

/-- The leaves below a root are at the ends of its branches, with the index of the child. -/
theorem leavesFrom_eq {depth : Nat} {nodes : List Node}
    (given : ∀ entry ∈ withDepthsAll depth nodes, entry.2.repetition?.isSome) (index : Nat) :
    leavesFrom index nodes = .ok ((branchesFrom index nodes).map rootLeaf) := by
  induction nodes generalizing index with
  | nil => rfl
  | cons node nodes ih =>
      rw [withDepthsAll, List.forall_mem_append] at given
      rw [leavesFrom, leaves_eq given.1, ih given.2 (index + 1), branchesFrom_cons,
        List.map_append, List.map_map]
      rfl

/-- With the indices left out, the branches below a root are those of its children. -/
theorem map_snd_branchesFrom (index : Nat) (nodes : List Node) :
    (branchesFrom index nodes).map Prod.snd = branchesAll nodes := by
  induction nodes generalizing index with
  | nil => rfl
  | cons node nodes ih =>
      rw [branchesAll, ← ih (index + 1), branchesFrom_cons, List.map_append, List.map_map]
      exact congrArg (· ++ _) (List.map_id _)

/-- Branches are no longer than the levels of the trees. -/
theorem length_le_of_mem_branchesAll {depth limit : Nat} {nodes : List Node}
    (shallow : ∀ entry ∈ withDepthsAll depth nodes, entry.1 ≤ limit) :
    ∀ branch ∈ branchesAll nodes, branch.nodes.length + depth ≤ limit + 1 := by
  induction nodes using forest_induction generalizing depth with
  | nil => exact List.forall_mem_nil _
  | primitive leaf beside ih =>
      rw [forall_mem_primitive_cons_iff] at shallow
      obtain ⟨top, others⟩ := shallow
      rw [branchesAll, branches, List.singleton_append, List.forall_mem_cons]
      refine ⟨?_, ih others⟩
      change 1 + depth ≤ limit + 1
      have bound : depth ≤ limit := top
      omega
  | group heading children beside inner ih =>
      rw [forall_mem_group_cons_iff] at shallow
      obtain ⟨⟨_, below⟩, others⟩ := shallow
      rw [branchesAll, branches, List.forall_mem_append, List.forall_mem_map]
      refine ⟨?_, ih others⟩
      intro branch member
      have bound := inner below branch member
      change branch.nodes.length + 1 + depth ≤ limit + 1
      omega

/-- The nodes on a branch are nodes of the trees. -/
theorem exists_entry_of_mem_branchesAll {depth : Nat} {nodes : List Node} :
    ∀ branch ∈ branchesAll nodes, ∀ node ∈ branch.nodes,
      ∃ entry ∈ withDepthsAll depth nodes, entry.2 = node := by
  induction nodes using forest_induction generalizing depth with
  | nil => exact List.forall_mem_nil _
  | primitive leaf beside ih =>
      rw [branchesAll, branches, List.singleton_append, List.forall_mem_cons, withDepthsAll,
        withDepths, List.singleton_append]
      constructor
      · intro node member
        exact ⟨_, List.mem_cons_self, (List.mem_singleton.mp member).symm⟩
      · intro branch member node onBranch
        obtain ⟨entry, inside, same⟩ := ih branch member node onBranch
        exact ⟨entry, List.mem_cons_of_mem _ inside, same⟩
  | group heading children beside inner ih =>
      rw [branchesAll, branches, List.forall_mem_append, List.forall_mem_map, withDepthsAll,
        withDepths]
      constructor
      · intro branch member node onBranch
        rcases List.mem_cons.mp onBranch with rfl | below
        · exact ⟨_, List.mem_append_left _ List.mem_cons_self, rfl⟩
        · obtain ⟨entry, inside, same⟩ := inner branch member node below
          exact ⟨entry, List.mem_append_left _ (List.mem_cons_of_mem _ inside), same⟩
      · intro branch member node onBranch
        obtain ⟨entry, inside, same⟩ := ih branch member node onBranch
        exact ⟨entry, List.mem_append_right _ inside, same⟩

/-- There are no more branches than nodes. -/
theorem length_branchesAll_le (depth : Nat) (nodes : List Node) :
    (branchesAll nodes).length ≤ (withDepthsAll depth nodes).length := by
  induction nodes using forest_induction generalizing depth with
  | nil => exact Nat.le_refl _
  | primitive leaf beside ih =>
      have others := ih depth
      simp only [branchesAll, branches, withDepthsAll, withDepths, List.length_append,
        List.length_singleton]
      omega
  | group heading children beside inner ih =>
      have below := inner (depth + 1)
      have others := ih depth
      simp only [branchesAll, branches, withDepthsAll, withDepths, List.length_append,
        List.length_cons, List.length_map]
      omega

/-- The branches of a root that its columns lie on, each with the index of its child. -/
def columnBranches : Node → List (Nat × Branch)
  | primitive _ => []
  | group _ children => branchesFrom 0 children

end Node

/-- A leaf tells of the branch that it lies on: its levels are the counts, without wrap-around. -/
structure Leaf.Tells (leaf : Leaf) (branch : Branch) : Prop where
  primitive : leaf.node = branch.leaf
  path : leaf.path.parts = branch.names
  definition : leaf.maxDefinitionLevel.toInt = (branch.definitionLevel : Int)
  repetition : leaf.maxRepetitionLevel.toInt = (branch.repetitionLevel : Int)

namespace Node

/-- The leaf at the end of a branch tells of it, where 16 bits are enough for its levels. -/
theorem rootLeaf_tells {place : Nat × Branch} (short : place.2.nodes.length < 2 ^ 15) :
    (rootLeaf place).Tells place.2 where
  primitive := rfl
  path := List.nil_append _
  definition := by
    change (0 + Int16.ofNat place.2.definitionLevel).toInt = _
    rw [Int16.zero_add, Int16.toInt_ofNat_of_lt]
    exact Nat.lt_of_le_of_lt place.2.definitionLevel_le short
  repetition := by
    change (0 + Int16.ofNat place.2.repetitionLevel).toInt = _
    rw [Int16.zero_add, Int16.toInt_ofNat_of_lt]
    exact Nat.lt_of_le_of_lt (Nat.le_trans place.2.repetitionLevel_le place.2.definitionLevel_le)
      short

end Node

/-- The columns of a schema can be relied on: every node below its root has a repetition, and the
levels of its leaves are the exact counts on their branches, between 0 and 128. -/
structure Schema.Sound (schema : Schema) : Prop where
  isSchema : schema.root.isSchema
  repetition : ∀ entry ∈ schema.root.withDepths 0, 0 < entry.1 →
    ∃ repetition, entry.2.repetition = .ok repetition
  tells : ∀ leaf ∈ schema.leaves, ∃ place ∈ schema.root.columnBranches, leaf.Tells place.2
  definition : ∀ leaf ∈ schema.leaves,
    0 ≤ leaf.maxDefinitionLevel.toInt ∧ leaf.maxDefinitionLevel.toInt ≤ 128
  repetitionLevel : ∀ leaf ∈ schema.leaves,
    0 ≤ leaf.maxRepetitionLevel.toInt ∧ leaf.maxRepetitionLevel.toInt ≤ 128

namespace Node

/-- The repetition of a node is the one that it has. -/
theorem repetition_eq_ok {node : Node} {repetition : Repetition} :
    node.repetition = .ok repetition ↔ node.repetition? = some repetition := by
  rw [Node.repetition]
  cases node.repetition? with
  | none => exact ⟨nofun, nofun⟩
  | some given => simp

/-- The columns of a rooted tree are at the ends of its branches. -/
theorem Rooted.ofNode_eq {root : Node} (rooted : root.Rooted) :
    Schema.ofNode root = .ok ⟨root, root.columnBranches.map rootLeaf⟩ := by
  cases root with
  | primitive leaf => exact nomatch rooted.isSchema
  | group heading children =>
      obtain ⟨-, given, -⟩ := rooted_group_iff.mp rooted
      exact Except.bind_eq_ok.mpr ⟨_, leavesFrom_eq given 0, rfl⟩

/-- The branches of a rooted tree have at most 128 nodes, all of them below the root. -/
theorem Rooted.of_mem_columnBranches {root : Node} (rooted : root.Rooted) {place : Nat × Branch}
    (member : place ∈ root.columnBranches) :
    place.2.nodes.length ≤ 128 ∧
      ∀ node ∈ place.2.nodes, ∃ entry ∈ root.withDepths 0, entry.2 = node := by
  cases root with
  | primitive leaf => exact nomatch rooted.isSchema
  | group heading children =>
      obtain ⟨-, -, shallow⟩ := rooted_group_iff.mp rooted
      have inside : place.2 ∈ branchesAll children := by
        rw [← map_snd_branchesFrom 0]
        exact List.mem_map_of_mem member
      refine ⟨Nat.le_of_succ_le_succ (length_le_of_mem_branchesAll shallow place.2 inside), ?_⟩
      intro node onBranch
      obtain ⟨entry, below, same⟩ := exists_entry_of_mem_branchesAll place.2 inside node onBranch
      rw [withDepths]
      exact ⟨entry, List.mem_cons_of_mem _ below, same⟩

/-- A schema has no more columns than nodes. -/
theorem length_columnBranches_le (root : Node) :
    root.columnBranches.length ≤ (root.withDepths 0).length := by
  cases root with
  | primitive leaf => exact Nat.zero_le _
  | group heading children =>
      have branches := length_branchesAll_le 1 children
      rw [← map_snd_branchesFrom 0, List.length_map] at branches
      rw [withDepths, List.length_cons]
      exact Nat.le_succ_of_le branches

/-- A rooted tree has a schema, whose columns are sound. -/
theorem Rooted.exists_schema {root : Node} (rooted : root.Rooted) :
    ∃ schema, Schema.ofNode root = .ok schema ∧ schema.root = root ∧ schema.Sound := by
  have branches : ∀ leaf ∈ root.columnBranches.map rootLeaf, ∃ place ∈ root.columnBranches,
      leaf.Tells place.2 ∧ place.2.nodes.length ≤ 128 := by
    rw [List.forall_mem_map]
    intro place member
    obtain ⟨short, -⟩ := rooted.of_mem_columnBranches member
    exact ⟨place, member, rootLeaf_tells (Nat.lt_of_le_of_lt short (by decide)), short⟩
  refine ⟨_, rooted.ofNode_eq, rfl, rooted.isSchema, ?_, ?_, ?_, ?_⟩
  · intro entry member below
    obtain ⟨repetition, given⟩ := Option.isSome_iff_exists.mp (rooted.repetition entry member below)
    exact ⟨repetition, repetition_eq_ok.mpr given⟩
  · intro leaf member
    obtain ⟨place, inside, tells, -⟩ := branches leaf member
    exact ⟨place, inside, tells⟩
  · intro leaf member
    obtain ⟨place, -, tells, short⟩ := branches leaf member
    have bound := place.2.definitionLevel_le
    rw [tells.definition]
    omega
  · intro leaf member
    obtain ⟨place, -, tells, short⟩ := branches leaf member
    have bound := place.2.definitionLevel_le
    have less := place.2.repetitionLevel_le
    rw [tells.repetition]
    omega

end Node

end ParquetFooter
