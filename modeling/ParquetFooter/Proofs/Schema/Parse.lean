import ParquetFooter.Proofs.Reader
import ParquetFooter.Proofs.Schema.Listing

/-! # Parses of flattened schemas

`Parse levels elements nodes rest` says that the elements begin with a description of the nodes,
which nest at most `levels` levels deep, and that the rest is what follows. It has a rule for each
kind of node. The reader of flattened schemas finds a parse, and it finds every parse.
-/

namespace ParquetFooter

open Record

namespace Record.SchemaElement

/-- An element is a leaf when it has a type and no number of children, or zero. -/
def IsLeaf (element : SchemaElement) : Prop :=
  element.type.isSome ∧ element.numChildren.getD 0 = 0

instance (element : SchemaElement) : Decidable element.IsLeaf :=
  inferInstanceAs (Decidable (_ ∧ _))

/-- The number of subtrees that an element announces; none without a number of children. -/
def arity (element : SchemaElement) : Int := (element.numChildren.getD 0).toInt

/-- A leaf announces no subtrees. -/
theorem IsLeaf.arity {element : SchemaElement} (isLeaf : element.IsLeaf) : element.arity = 0 := by
  rw [SchemaElement.arity, isLeaf.2]
  rfl

/-- The element of a leaf describes a primitive that can be made. A missing length counts as minus
one. -/
structure Describes (element : SchemaElement) (leaf : Primitive) : Prop where
  made : leaf.Made
  isLeaf : element.IsLeaf
  type : element.type = some leaf.physicalType
  repetition : element.repetition = leaf.repetition
  name : element.name = leaf.name
  length : element.typeLength.getD (-1) = leaf.length
  id : element.fieldId = leaf.id

end Record.SchemaElement

namespace Node

/-- The elements begin with a description of the nodes, and the rest follows. -/
inductive Parse : Nat → List SchemaElement → List Node → List SchemaElement → Prop
  | nil {levels rest} : Parse levels rest [] rest
  | primitive {levels element middle leaf beside rest} (describes : element.Describes leaf)
      (others : Parse (levels + 1) middle beside rest) :
      Parse (levels + 1) (element :: middle) (.primitive leaf :: beside) rest
  | group {levels element inner children middle beside rest} (notLeaf : ¬ element.IsLeaf)
      (arity : element.arity = (children.length : Int)) (given : element.repetition.isSome)
      (below : Parse levels inner children middle)
      (others : Parse (levels + 1) middle beside rest) :
      Parse (levels + 1) (element :: inner) (.group (headingOf false element) children :: beside)
        rest

/-- A leaf element is read as the primitive that it tells of, if that can be made. -/
theorem ofPrimitiveElement_eq_ok {element : SchemaElement} {type : PhysicalType} {node : Node} :
    ofPrimitiveElement element type = .ok node ↔
      ∃ leaf : Primitive, leaf.Made ∧ node = .primitive leaf ∧ type = leaf.physicalType ∧
        element.repetition = leaf.repetition ∧ element.name = leaf.name ∧
        element.typeLength.getD (-1) = leaf.length ∧ element.fieldId = leaf.id := by
  rw [ofPrimitiveElement]
  cases given : element.repetition with
  | none =>
      refine iff_of_false nofun ?_
      rintro ⟨leaf, made, -, -, missing, -⟩
      have present := (Primitive.made_iff.mp made).1
      rw [← missing] at present
      cases present
  | some repetition =>
      rw [Except.bind_eq_ok]
      constructor
      · rintro ⟨leaf, made, same⟩
        obtain ⟨-, rfl⟩ := PrimitiveSpec.make_eq_ok.mp made
        exact ⟨_, ⟨_, made⟩, (Except.ok.inj same).symm, rfl, rfl, rfl, rfl, rfl⟩
      · rintro ⟨leaf, made, rfl, rfl, same, name, length, id⟩
        refine ⟨leaf, PrimitiveSpec.make_eq_ok.mpr ⟨?_, ?_⟩, rfl⟩
        · rw [length]
          exact (Primitive.made_iff.mp made).2
        · rw [name, same, length, id]

/-- The tree of a leaf element is the primitive that it describes. -/
theorem readTree_of_isLeaf {total levels : Nat} {atRoot : Bool} {element : SchemaElement}
    {inner rest : List SchemaElement} {node : Node} (isLeaf : element.IsLeaf) :
    readTree total (levels + 1) atRoot (element :: inner) = .ok (node, rest) ↔
      ∃ leaf, element.Describes leaf ∧ node = .primitive leaf ∧ inner = rest := by
  obtain ⟨type, typed⟩ := Option.isSome_iff_exists.mp isLeaf.1
  have reads : readTree total (levels + 1) atRoot (element :: inner) =
      (do return (← ofPrimitiveElement element type, inner)) := by
    have childless := isLeaf.2
    simp only [readTree, typed]
    cases count : element.numChildren with
    | none => rfl
    | some count =>
        rw [count, Option.getD_some] at childless
        rw [childless]
        rfl
  rw [reads, Except.bind_eq_ok]
  constructor
  · rintro ⟨found, read, same⟩
    obtain ⟨rfl, rfl⟩ := Prod.mk.inj (Except.ok.inj same)
    obtain ⟨leaf, made, rfl, rfl, repetition, name, length, id⟩ :=
      ofPrimitiveElement_eq_ok.mp read
    exact ⟨leaf, ⟨made, isLeaf, typed, repetition, name, length, id⟩, rfl, rfl⟩
  · rintro ⟨leaf, describes, rfl, rfl⟩
    have same : type = leaf.physicalType := Option.some.inj (typed.symm.trans describes.type)
    exact ⟨_, ofPrimitiveElement_eq_ok.mpr ⟨leaf, describes.made, rfl, same, describes.repetition,
      describes.name, describes.length, describes.id⟩, rfl⟩

/-- An element has as many children as it announces, and a repetition below the root. -/
theorem childCount_eq_ok {atRoot : Bool} {element : SchemaElement} {count : Nat} :
    childCount atRoot element = .ok count ↔
      element.arity = (count : Int) ∧ (atRoot = false → element.repetition.isSome) := by
  simp only [childCount, SchemaElement.arity, Int32.lt_iff_toInt_lt, Int32.toInt_zero]
  split
  next negative =>
    refine ⟨nofun, ?_⟩
    rintro ⟨same, -⟩
    omega
  next nonneg =>
    split
    next bare =>
      obtain ⟨below, without⟩ := Bool.and_eq_true_iff.mp bare
      refine ⟨nofun, fun ⟨_, given⟩ => ?_⟩
      have due := given (Bool.not_eq_true' atRoot |>.mp below)
      rw [Option.isNone_iff_eq_none.mp without] at due
      exact nomatch due
    next fine =>
      constructor
      · intro same
        rw [← Except.ok.inj same]
        refine ⟨(Int.toNat_of_nonneg (Int.not_lt.mp nonneg)).symm, ?_⟩
        rintro rfl
        rwa [Bool.not_false, Bool.true_and, Bool.not_eq_true, Option.isNone_eq_false_iff] at fine
      · rintro ⟨same, -⟩
        rw [same, Int.toNat_natCast]

/-- Another element is read as a group, whose children follow. -/
theorem readTree_eq_of_not_isLeaf {total levels : Nat} {atRoot : Bool} {element : SchemaElement}
    {inner : List SchemaElement} (notLeaf : ¬ element.IsLeaf) :
    readTree total (levels + 1) atRoot (element :: inner) = (do
      let count ← childCount atRoot element
      let taken ← Reader.times (readTree total levels false) count inner
      return (group (headingOf atRoot element) taken.1, taken.2)) := by
  simp only [readTree]
  split
  next type typed childless =>
    exact absurd ⟨by rw [typed, Option.isSome_some], by rw [childless, Option.getD_none]⟩ notLeaf
  next type typed childless =>
    exact absurd ⟨by rw [typed, Option.isSome_some], by rw [childless]; rfl⟩ notLeaf
  next => rfl

/-- The tree of another element is a group of as many trees as it announces. -/
theorem readTree_of_not_isLeaf {total levels : Nat} {atRoot : Bool} {element : SchemaElement}
    {inner rest : List SchemaElement} {node : Node} (notLeaf : ¬ element.IsLeaf) :
    readTree total (levels + 1) atRoot (element :: inner) = .ok (node, rest) ↔
      ∃ children, element.arity = (children.length : Int) ∧
        (atRoot = false → element.repetition.isSome) ∧
        Reader.times (readTree total levels false) children.length inner = .ok (children, rest) ∧
        node = .group (headingOf atRoot element) children := by
  rw [readTree_eq_of_not_isLeaf notLeaf, Except.bind_eq_ok]
  constructor
  · rintro ⟨count, counted, following⟩
    obtain ⟨⟨children, middle⟩, read, same⟩ := Except.bind_eq_ok.mp following
    obtain ⟨rfl, rfl⟩ := Prod.mk.inj (Except.ok.inj same)
    obtain rfl := Reader.length_of_times read
    obtain ⟨arity, given⟩ := childCount_eq_ok.mp counted
    exact ⟨children, arity, given, read, rfl⟩
  · rintro ⟨children, arity, given, read, rfl⟩
    exact ⟨_, childCount_eq_ok.mpr ⟨arity, given⟩, Except.bind_eq_ok.mpr ⟨_, read, rfl⟩⟩

/-- Trees are read where they have a parse, and a parse is what is read. -/
theorem times_readTree_eq_ok {total levels : Nat} {elements rest : List SchemaElement}
    {nodes : List Node} :
    Reader.times (readTree total levels false) nodes.length elements = .ok (nodes, rest) ↔
      Parse levels elements nodes rest := by
  constructor
  · intro read
    -- The children of a group have a level less; the trees beside it are as many levels high.
    induction levels generalizing elements rest nodes with
    | zero =>
        cases nodes with
        | nil =>
            obtain ⟨-, rfl⟩ := Prod.mk.inj (Except.ok.inj read)
            exact .nil
        | cons node beside =>
            obtain ⟨_, _, _, head, -, -⟩ := Reader.times_succ_eq_ok.mp read
            exact nomatch head
    | succ levels below =>
        induction nodes generalizing elements with
        | nil =>
            obtain ⟨-, rfl⟩ := Prod.mk.inj (Except.ok.inj read)
            exact .nil
        | cons node beside ih =>
            obtain ⟨_, middle, _, head, tail, same⟩ := Reader.times_succ_eq_ok.mp read
            obtain ⟨rfl, rfl⟩ := List.cons.inj same
            cases elements with
            | nil => exact nomatch head
            | cons element inner =>
                by_cases isLeaf : element.IsLeaf
                · obtain ⟨leaf, describes, rfl, rfl⟩ := (readTree_of_isLeaf isLeaf).mp head
                  exact .primitive describes (ih tail)
                · obtain ⟨children, arity, given, inside, rfl⟩ :=
                    (readTree_of_not_isLeaf isLeaf).mp head
                  exact .group isLeaf arity (given rfl) (below inside) (ih tail)
  · intro parse
    induction parse with
    | nil => rfl
    | primitive describes others ih =>
        refine Reader.times_succ_eq_ok.mpr ⟨_, _, _, ?_, ih, rfl⟩
        exact (readTree_of_isLeaf describes.isLeaf).mpr ⟨_, describes, rfl, rfl⟩
    | group notLeaf arity given below others inner ih =>
        refine Reader.times_succ_eq_ok.mpr ⟨_, _, _, ?_, ih, rfl⟩
        exact (readTree_of_not_isLeaf notLeaf).mpr ⟨_, arity, fun _ => given, inner, rfl⟩

/-- No trees are read only from no elements. -/
theorem readTrees_eq_nil {total : Nat} {clock elements : List SchemaElement} {atRoot : Bool} :
    readTrees total clock atRoot elements = .ok [] ↔ elements = [] := by
  constructor
  · intro read
    cases elements with
    | nil => rfl
    | cons element inner =>
        cases clock with
        | nil => exact nomatch read
        | cons tick clock =>
            obtain ⟨_, _, following⟩ := Except.bind_eq_ok.mp read
            obtain ⟨_, _, same⟩ := Except.bind_eq_ok.mp following
            exact nomatch Except.ok.inj same
  · rintro rfl
    cases clock <;> rfl

/-- There is one tree where the first tree takes all elements. -/
theorem readTrees_eq_singleton {total : Nat} {tick element : SchemaElement}
    {clock inner : List SchemaElement} {atRoot : Bool} {root : Node} :
    readTrees total (tick :: clock) atRoot (element :: inner) = .ok [root] ↔
      readTree total (maxDepth + 1) atRoot (element :: inner) = .ok (root, []) := by
  rw [readTrees, Except.bind_eq_ok]
  constructor
  · rintro ⟨⟨first, rest⟩, head, following⟩
    obtain ⟨trees, tail, same⟩ := Except.bind_eq_ok.mp following
    obtain ⟨rfl, rfl⟩ := List.cons.inj (Except.ok.inj same)
    rw [readTrees_eq_nil.mp tail] at head
    exact head
  · exact fun head => ⟨_, head, Except.bind_eq_ok.mpr ⟨[], readTrees_eq_nil.mpr rfl, rfl⟩⟩

/-- The schemas that are read are those of a first element that is no leaf, with a parse of its
children that takes all other elements. -/
theorem ofElements_eq_ok {elements : List SchemaElement} {root : Node} :
    ofElements elements = .ok root ↔
      ∃ element inner children, elements = element :: inner ∧ ¬ element.IsLeaf ∧
        element.arity = (children.length : Int) ∧ root = .group (headingOf true element) children ∧
        Parse maxDepth inner children [] := by
  rw [ofElements, Except.bind_eq_ok]
  constructor
  · rintro ⟨trees, read, same⟩
    split at same
    next heading children =>
      obtain rfl := Except.ok.inj same
      cases elements with
      | nil => cases read
      | cons element inner =>
          have tree := readTrees_eq_singleton.mp read
          by_cases isLeaf : element.IsLeaf
          · obtain ⟨leaf, -, impossible, -⟩ := (readTree_of_isLeaf isLeaf).mp tree
            cases impossible
          · obtain ⟨others, arity, -, inside, whole⟩ := (readTree_of_not_isLeaf isLeaf).mp tree
            obtain ⟨rfl, rfl⟩ := Node.group.inj whole
            exact ⟨element, inner, children, rfl, isLeaf, arity, rfl,
              times_readTree_eq_ok.mp inside⟩
    next => cases same
    next => cases same
  · rintro ⟨element, inner, children, rfl, notLeaf, arity, rfl, parse⟩
    refine ⟨[.group (headingOf true element) children], readTrees_eq_singleton.mpr ?_, rfl⟩
    exact (readTree_of_not_isLeaf notLeaf).mpr
      ⟨children, arity, nofun, times_readTree_eq_ok.mpr parse, rfl⟩

/-- What a parse takes off the elements has every property of elements and nodes that passes from
the parts of a parse to the whole, whatever follows. -/
theorem Parse.exists_taken {motive : Nat → List SchemaElement → List Node → Prop}
    (nil : ∀ levels, motive levels [] [])
    (primitive : ∀ levels element leaf taken beside, element.Describes leaf →
      motive (levels + 1) taken beside →
      motive (levels + 1) (element :: taken) (.primitive leaf :: beside))
    (group : ∀ levels element inner children taken beside, ¬ element.IsLeaf →
      element.arity = (children.length : Int) → element.repetition.isSome →
      motive levels inner children → motive (levels + 1) taken beside →
      motive (levels + 1) (element :: (inner ++ taken))
        (.group (headingOf false element) children :: beside))
    {levels : Nat} {elements rest : List SchemaElement} {nodes : List Node}
    (parse : Parse levels elements nodes rest) :
    ∃ taken, elements = taken ++ rest ∧ motive levels taken nodes := by
  induction parse with
  | nil => exact ⟨[], rfl, nil _⟩
  | primitive describes others ih =>
      obtain ⟨taken, rfl, outer⟩ := ih
      exact ⟨_ :: taken, rfl, primitive _ _ _ _ _ describes outer⟩
  | group notLeaf arity given below others inside ih =>
      obtain ⟨inner, rfl, deeper⟩ := inside
      obtain ⟨taken, rfl, outer⟩ := ih
      exact ⟨_ :: (inner ++ taken), by rw [List.cons_append, List.append_assoc],
        group _ _ _ _ _ _ notLeaf arity given deeper outer⟩

/-- All nodes that are parsed can be made and have a repetition, and they lie no deeper than they
may. -/
theorem Parse.forall_mem {levels : Nat} {elements rest : List SchemaElement} {nodes : List Node}
    (parse : Parse levels elements nodes rest) (depth : Nat) :
    ∀ entry ∈ withDepthsAll depth nodes,
      entry.2.Made ∧ entry.2.repetition?.isSome ∧ entry.1 + 1 ≤ depth + levels := by
  induction parse generalizing depth with
  | nil => exact List.forall_mem_nil _
  | primitive describes others ih =>
      rw [forall_mem_primitive_cons_iff]
      refine ⟨⟨describes.made, (Primitive.made_iff.mp describes.made).1, ?_⟩, ih depth⟩
      change depth + 1 ≤ _
      omega
  | group notLeaf arity given below others inside ih =>
      rw [forall_mem_group_cons_iff]
      refine ⟨⟨⟨trivial, given, ?_⟩, ?_⟩, ih depth⟩
      · change depth + 1 ≤ _
        omega
      · intro entry member
        obtain ⟨made, repetition, bound⟩ := inside (depth + 1) entry member
        exact ⟨made, repetition, by omega⟩

/-- Only rooted trees are read. -/
theorem rooted_of_ofElements {elements : List SchemaElement} {root : Node}
    (read : ofElements elements = .ok root) : root.Rooted := by
  obtain ⟨element, inner, children, -, -, -, rfl, parse⟩ := ofElements_eq_ok.mp read
  refine rooted_group_iff.mpr ⟨rfl, ?_, ?_⟩
  · exact fun entry member => (parse.forall_mem 1 entry member).2.1
  · intro entry member
    have bound := (parse.forall_mem 1 entry member).2.2
    rw [maxDepth] at bound
    omega

/-- The primitives that are read could have been made. -/
theorem made_of_ofElements {elements : List SchemaElement} {root : Node}
    (read : ofElements elements = .ok root) : ∀ entry ∈ root.withDepths 0, entry.2.Made := by
  obtain ⟨element, inner, children, -, -, -, rfl, parse⟩ := ofElements_eq_ok.mp read
  rw [withDepths, List.forall_mem_cons]
  exact ⟨trivial, fun entry member => (parse.forall_mem 1 entry member).1⟩

end Node

end ParquetFooter
