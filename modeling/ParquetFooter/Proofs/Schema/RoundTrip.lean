import ParquetFooter.Proofs.Failure
import ParquetFooter.Proofs.Schema.Canonical
import Mathlib.Algebra.Group.Nat.Defs

/-! # Schemas are read back

A schema that was flattened is read back from its elements, which have it as a parse. A rooted tree
of primitives that were made loses nothing when it is flattened, as long as a leaf without a length
has minus one in its place and the number of children of a group fits into 32 bits. No other tree is
read back.
-/

namespace ParquetFooter

open Record

/-- The element of a primitive that was made describes it; of the negative lengths only minus one is
kept. -/
theorem Primitive.listed_describes {leaf : Primitive} (made : leaf.Made)
    (kept : -1 ≤ leaf.length) : leaf.listed.Describes leaf where
  made := made
  isLeaf := ⟨rfl, rfl⟩
  type := rfl
  repetition := rfl
  name := rfl
  length := by
    by_cases given : 0 ≤ leaf.length
    · simp only [Primitive.listed, if_pos given, Option.getD_some]
    · simp only [Primitive.listed, if_neg given, Option.getD_none]
      rw [Int32.le_iff_toInt_le] at kept given
      have minusOne : (-1 : Int32).toInt = -1 := by decide
      have zero : (0 : Int32).toInt = 0 := by decide
      rw [← Int32.toInt_inj]
      omega
  id := rfl

/-- Where the element of a primitive describes it, a negative length can only be minus one. -/
theorem Primitive.kept_of_listed_describes {leaf : Primitive}
    (describes : leaf.listed.Describes leaf) : -1 ≤ leaf.length := by
  have length := describes.length
  by_cases given : 0 ≤ leaf.length
  · exact Int32.le_trans (by decide) given
  · simp only [Primitive.listed, if_neg given, Option.getD_none] at length
    rw [← length]
    exact Int32.le_refl _

/-- The element of a group is no leaf, even if the group is empty. -/
theorem Heading.element_not_isLeaf (heading : Heading) (count : Nat) :
    ¬ (heading.element count).IsLeaf := fun isLeaf => nomatch isLeaf.1

/-- The element of a group announces its children if they can be counted. -/
theorem Heading.element_arity {heading : Heading} {count : Nat} (small : count < 2 ^ 31) :
    (heading.element count).arity = (count : Int) :=
  Int32.toInt_ofNat_of_lt small

/-- A group whose element announces its children has few enough of them. -/
theorem Heading.lt_of_element_arity {heading : Heading} {count : Nat}
    (arity : (heading.element count).arity = (count : Int)) : count < 2 ^ 31 := by
  have bound := (Int32.ofNat count).toInt_lt
  change (Int32.ofNat count).toInt = (count : Int) at arity
  omega

namespace Node

/-- The element of a node says all of it but the children. -/
def Kept : Node → Prop
  | primitive leaf => -1 ≤ leaf.length
  | group _ children => children.length < 2 ^ 31

instance : DecidablePred Kept
  | primitive leaf => inferInstanceAs (Decidable (-1 ≤ leaf.length))
  | group _ children => inferInstanceAs (Decidable (children.length < 2 ^ 31))

/-- The elements of some trees have these trees as a parse, whatever follows. -/
theorem parse_listingAll {depth levels : Nat} {nodes : List Node}
    (made : ∀ entry ∈ withDepthsAll depth nodes, entry.2.Made)
    (given : ∀ entry ∈ withDepthsAll depth nodes, entry.2.repetition?.isSome)
    (shallow : ∀ entry ∈ withDepthsAll depth nodes, entry.1 < depth + levels)
    (kept : ∀ entry ∈ withDepthsAll depth nodes, entry.2.Kept) (rest : List SchemaElement) :
    Parse levels (listingAll nodes ++ rest) nodes rest := by
  induction nodes using forest_induction generalizing depth levels rest with
  | nil => exact .nil
  | primitive leaf beside ih =>
      rw [forall_mem_primitive_cons_iff] at made given shallow kept
      cases levels with
      | zero => exact absurd shallow.1 (Nat.lt_irrefl depth)
      | succ levels =>
          rw [listingAll, listing, List.singleton_append, List.cons_append]
          exact .primitive (Primitive.listed_describes made.1 kept.1)
            (ih made.2 given.2 shallow.2 kept.2 rest)
  | group heading children beside inner ih =>
      rw [forall_mem_group_cons_iff] at made given shallow kept
      cases levels with
      | zero => exact absurd shallow.1.1 (Nat.lt_irrefl depth)
      | succ levels =>
          rw [listingAll, listing, List.cons_append, List.cons_append, List.append_assoc]
          have deeper : ∀ entry ∈ withDepthsAll (depth + 1) children,
              entry.1 < depth + 1 + levels := by
            intro entry member
            have bound := shallow.1.2 entry member
            omega
          exact .group (heading.element_not_isLeaf _) (Heading.element_arity kept.1.1) given.1.1
            (inner made.1.2 given.1.2 deeper kept.1.2 _)
            (ih made.2 given.2 shallow.2 kept.2 rest)

/-- A rooted tree that loses nothing is read back from its elements. -/
theorem Rooted.ofElements_listing {root : Node} (rooted : root.Rooted)
    (made : ∀ entry ∈ root.withDepths 0, entry.2.Made)
    (kept : ∀ entry ∈ root.withDepths 0, entry.2.Kept) : ofElements root.listing = .ok root := by
  cases root with
  | primitive leaf => exact nomatch rooted.isSchema
  | group heading children =>
      obtain ⟨bare, given, shallow⟩ := rooted_group_iff.mp rooted
      rw [withDepths, List.forall_mem_cons] at made kept
      have withinDepth : ∀ entry ∈ withDepthsAll 1 children, entry.1 < 1 + maxDepth := by
        intro entry member
        have bound := shallow entry member
        rw [maxDepth]
        omega
      have parse := parse_listingAll made.2 given withinDepth kept.2 []
      rw [List.append_nil] at parse
      refine ofElements_eq_ok.mpr ⟨heading.element children.length, listingAll children, children,
        by rw [listing], heading.element_not_isLeaf _, Heading.element_arity kept.1, ?_, parse⟩
      cases heading with
      | mk name repetition id =>
          obtain rfl : repetition = none := bare
          rfl

/-- Where a primitive is parsed first, the first element describes it. -/
theorem Parse.of_primitive {levels : Nat} {element : SchemaElement}
    {inner rest : List SchemaElement} {leaf : Primitive} {beside : List Node}
    (parse : Parse levels (element :: inner) (.primitive leaf :: beside) rest) :
    element.Describes leaf ∧ Parse levels inner beside rest := by
  cases parse with
  | primitive describes others => exact ⟨describes, others⟩

/-- Where a group is parsed first, the first element announces its children, which follow. -/
theorem Parse.of_group {levels : Nat} {element : SchemaElement} {inner rest : List SchemaElement}
    {heading : Heading} {children beside : List Node}
    (parse : Parse levels (element :: inner) (.group heading children :: beside) rest) :
    element.arity = (children.length : Int) ∧
      ∃ below middle, Parse below inner children middle ∧ Parse levels middle beside rest := by
  cases parse with
  | group notLeaf arity given below others => exact ⟨arity, _, _, below, others⟩

/-- As many elements are taken as the nodes have, so the rest is what stands behind these. -/
theorem Parse.rest_eq {levels : Nat} {nodes : List Node} {behind rest : List SchemaElement}
    (parse : Parse levels (listingAll nodes ++ behind) nodes rest) : rest = behind := by
  obtain ⟨taken, split, flat⟩ := parse.exists_canonical
  have length : (listingAll nodes).length = taken.length := by
    rw [flat, List.length_map]
  exact (List.append_inj_right split length).symm

/-- Trees that are a parse of their own elements have lost nothing. The induction is on the trees;
what their elements leave for the trees beside them is known from the count. -/
theorem Parse.kept {depth levels : Nat} {nodes : List Node} {behind rest : List SchemaElement}
    (parse : Parse levels (listingAll nodes ++ behind) nodes rest) :
    ∀ entry ∈ withDepthsAll depth nodes, entry.2.Kept := by
  induction nodes using forest_induction generalizing depth levels behind rest with
  | nil => exact List.forall_mem_nil _
  | primitive leaf beside ih =>
      rw [listingAll, listing, List.singleton_append, List.cons_append] at parse
      obtain ⟨describes, others⟩ := parse.of_primitive
      rw [forall_mem_primitive_cons_iff]
      exact ⟨Primitive.kept_of_listed_describes describes, ih others⟩
  | group heading children beside inner ih =>
      rw [listingAll, listing, List.cons_append, List.cons_append, List.append_assoc] at parse
      obtain ⟨arity, _, middle, below, others⟩ := parse.of_group
      have left := below.rest_eq
      subst left
      rw [forall_mem_group_cons_iff]
      exact ⟨⟨Heading.lt_of_element_arity arity, inner below⟩, ih others⟩

/-- A group that is read back from its elements has lost nothing. -/
theorem kept_of_ofElements_listing {heading : Heading} {children : List Node}
    (read : ofElements (group heading children).listing = .ok (group heading children)) :
    ∀ entry ∈ (group heading children).withDepths 0, entry.2.Kept := by
  obtain ⟨element, inner, _, same, -, arity, whole, parse⟩ := ofElements_eq_ok.mp read
  obtain ⟨-, rfl⟩ := Node.group.inj whole
  rw [listing] at same
  obtain ⟨rfl, rfl⟩ := List.cons.inj same
  rw [← List.append_nil (listingAll children)] at parse
  rw [withDepths, List.forall_mem_cons]
  exact ⟨Heading.lt_of_element_arity arity, parse.kept⟩

/-- **Exactly the rooted trees that lose nothing are read back.** Let all primitives of a tree come
from specifications. Then flattening the tree and reading the elements gives that tree again if and
only if it is a group without repetition, all nodes below it have a repetition and lie at most 128
levels deep, no length is less than minus one, and no group has `2 ^ 31` children or more. -/
theorem flatten_bind_ofElements_iff {root : Node}
    (made : ∀ entry ∈ root.withDepths 0, entry.2.Made) :
    (do ofElements (← root.flatten) : Except Failure Node) = .ok root ↔
      root.Rooted ∧ ∀ entry ∈ root.withDepths 0, entry.2.Kept := by
  cases root with
  | primitive leaf => exact iff_of_false nofun fun rooted => nomatch rooted.1.isSchema
  | group heading children =>
      have below : ∀ entry ∈ withDepthsAll 1 children, entry.2.Complete :=
        fun entry member => (made entry (List.mem_cons_of_mem _ member)).complete
      rw [flatten_eq below]
      change (liftM (ofElements (group heading children).listing) : Except Failure Node) = _ ↔ _
      rw [liftM_fault_eq_ok]
      constructor
      · intro read
        exact ⟨rooted_of_ofElements read, kept_of_ofElements_listing read⟩
      · intro conditions
        exact conditions.1.ofElements_listing made conditions.2

/-- A tree with a leaf of a fixed length beside an empty group and a leaf whose length is lost. -/
def keepsakes (length : Int32) : Node :=
  .group ⟨"root", none, some 1⟩
    [.primitive ⟨"key", some .required, .fixedLenByteArray, 16, none⟩,
      .group ⟨"nothing", some .optional, none⟩ [],
      .primitive ⟨"count", some .repeated, .int64, length, some (-4)⟩]

/-- A tree is read back when a missing length is minus one, and not when it is minus two. -/
theorem flatten_bind_ofElements_keepsakes :
    (∀ entry ∈ (keepsakes (-1)).withDepths 0, entry.2.Made) ∧
    (∀ entry ∈ (keepsakes (-2)).withDepths 0, entry.2.Made) ∧
    (do ofElements (← (keepsakes (-1)).flatten) : Except Failure Node) = .ok (keepsakes (-1)) ∧
    (do ofElements (← (keepsakes (-2)).flatten) : Except Failure Node) ≠ .ok (keepsakes (-2)) := by
  have made : ∀ entry ∈ (keepsakes (-1)).withDepths 0, entry.2.Made := by decide
  have made' : ∀ entry ∈ (keepsakes (-2)).withDepths 0, entry.2.Made := by decide
  refine ⟨made, made', (flatten_bind_ofElements_iff made).mpr ⟨?_, by decide⟩,
    mt (flatten_bind_ofElements_iff made').mp ?_⟩
  · exact rooted_group_iff.mpr ⟨rfl, by decide, by decide⟩
  · exact fun read => absurd read.2 (by decide)

end Node

end ParquetFooter
