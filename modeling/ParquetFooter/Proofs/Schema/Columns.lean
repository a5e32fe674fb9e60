import ParquetFooter.Proofs.Schema.Levels
import ParquetFooter.Proofs.Schema.Parse
import Mathlib.Data.List.Forall2

/-! # Columns of schemas that are read

The elements of a schema that are leaves describe its columns: there are as many, and they come in
the same order. Which column belongs to an element can so be told from the list of elements alone.
-/

namespace ParquetFooter.Node

open Record

/-- The elements that are leaves, in their order. -/
def leafElements (elements : List SchemaElement) : List SchemaElement :=
  elements.filter fun element => element.IsLeaf

/-- Leaves are taken from both parts of a list. -/
theorem leafElements_append (front back : List SchemaElement) :
    leafElements (front ++ back) = leafElements front ++ leafElements back :=
  List.filter_append _ _

theorem leafElements_cons_of_isLeaf {element : SchemaElement} (isLeaf : element.IsLeaf)
    (others : List SchemaElement) :
    leafElements (element :: others) = element :: leafElements others :=
  List.filter_cons_of_pos (decide_eq_true isLeaf)

theorem leafElements_cons_of_not_isLeaf {element : SchemaElement} (notLeaf : ¬ element.IsLeaf)
    (others : List SchemaElement) : leafElements (element :: others) = leafElements others :=
  List.filter_cons_of_neg (by simp [notLeaf])

/-- The leaves of a group come before those of the trees beside it. -/
theorem map_leaf_branchesAll_group (heading : Heading) (children beside : List Node) :
    (branchesAll (.group heading children :: beside)).map Branch.leaf =
      (branchesAll children).map Branch.leaf ++ (branchesAll beside).map Branch.leaf := by
  rw [branchesAll, branches, List.map_append, List.map_map]
  rfl

/-- The leaves among the elements of a parse describe the ends of its branches. -/
theorem Parse.describes_branches {levels : Nat} {elements rest : List SchemaElement}
    {nodes : List Node} (parse : Parse levels elements nodes rest) :
    ∃ taken, elements = taken ++ rest ∧
      List.Forall₂ SchemaElement.Describes (leafElements taken)
        ((branchesAll nodes).map Branch.leaf) := by
  apply parse.exists_taken (motive := fun _ taken nodes => List.Forall₂ SchemaElement.Describes
    (leafElements taken) ((branchesAll nodes).map Branch.leaf))
  case nil => exact fun _ => .nil
  case primitive =>
    intro levels element leaf taken beside describes outer
    rw [leafElements_cons_of_isLeaf describes.isLeaf]
    exact .cons describes outer
  case group =>
    intro levels element inner children taken beside notLeaf arity given deeper outer
    rw [leafElements_cons_of_not_isLeaf notLeaf, leafElements_append, map_leaf_branchesAll_group]
    exact List.rel_append deeper outer

/-- The leaves among the elements of a schema describe its columns. -/
theorem describes_leaves {elements : List SchemaElement} {root : Node} {schema : Schema}
    (read : ofElements elements = .ok root) (made : Schema.ofNode root = .ok schema) :
    List.Forall₂ (fun element leaf => element.Describes leaf.node) (leafElements elements)
      schema.leaves := by
  have rooted := rooted_of_ofElements read
  obtain ⟨element, inner, children, rfl, notLeaf, -, rfl, parse⟩ := ofElements_eq_ok.mp read
  obtain ⟨taken, rfl, inOrder⟩ := parse.describes_branches
  obtain rfl := Except.ok.inj (made.symm.trans rooted.ofNode_eq)
  rw [← map_snd_branchesFrom 0, List.map_map, List.forall₂_map_right_iff] at inOrder
  rw [leafElements_cons_of_not_isLeaf notLeaf, List.append_nil, List.forall₂_map_right_iff]
  exact inOrder

/-- A schema has as many columns as there are leaves among its elements. -/
theorem numColumns_eq {elements : List SchemaElement} {root : Node} {schema : Schema}
    (read : ofElements elements = .ok root) (made : Schema.ofNode root = .ok schema) :
    schema.numColumns = (leafElements elements).length :=
  (describes_leaves read made).length_eq.symm

/-- A column is described by the leaf in its place. -/
theorem exists_leafElement {elements : List SchemaElement} {root : Node} {schema : Schema}
    (read : ofElements elements = .ok root) (made : Schema.ofNode root = .ok schema)
    {position : Nat} {leaf : Leaf} (here : schema.leaves[position]? = some leaf) :
    ∃ element, (leafElements elements)[position]? = some element ∧
      element.Describes leaf.node := by
  have inOrder := describes_leaves read made
  obtain ⟨inside, rfl⟩ := List.getElem?_eq_some_iff.mp here
  have among : position < (leafElements elements).length := by
    rw [← numColumns_eq read made]
    exact inside
  exact ⟨_, List.getElem?_eq_getElem among, inOrder.get among inside⟩

end ParquetFooter.Node
