import ParquetFooter.Proofs.Schema.Shape

/-! # Canonical elements

Readers are lenient, writers are not: what is read from a list of elements and flattened again may
differ from that list. It differs element by element, in place. `SchemaElement.canonical` is what
becomes of an element, which depends on nothing but the element and on whether it is the first one.
Canonical elements describe a schema where the original ones do, and they stay as they are.
-/

namespace ParquetFooter

open Record

namespace Record.SchemaElement

/-- An element as a writer gives it. A leaf has no number of children, and a length only if it is
one. Any other element has a number of children and no type, and the root no repetition. -/
def canonical (atRoot : Bool) (element : SchemaElement) : SchemaElement :=
  if element.IsLeaf then
    { element with
      typeLength := element.typeLength.filter (0 ≤ ·)
      numChildren := none }
  else
    { element with
      type := none
      typeLength := none
      repetition := if atRoot then none else element.repetition
      numChildren := some (element.numChildren.getD 0) }

/-- A leaf keeps its type, and its length unless that is negative. -/
theorem canonical_of_isLeaf {element : SchemaElement} (isLeaf : element.IsLeaf) (atRoot : Bool) :
    element.canonical atRoot =
      { element with typeLength := element.typeLength.filter (0 ≤ ·), numChildren := none } :=
  if_pos isLeaf

/-- Any other element keeps its number of children, and the root loses its repetition. -/
theorem canonical_of_not_isLeaf {element : SchemaElement} (notLeaf : ¬ element.IsLeaf)
    (atRoot : Bool) :
    element.canonical atRoot =
      { element with
        type := none
        typeLength := none
        repetition := if atRoot then none else element.repetition
        numChildren := some (element.numChildren.getD 0) } :=
  if_neg notLeaf

/-- Leaves stay leaves. -/
theorem isLeaf_canonical_iff {element : SchemaElement} {atRoot : Bool} :
    (element.canonical atRoot).IsLeaf ↔ element.IsLeaf := by
  by_cases isLeaf : element.IsLeaf
  · rw [canonical_of_isLeaf isLeaf]
    exact iff_of_true ⟨isLeaf.1, rfl⟩ isLeaf
  · rw [canonical_of_not_isLeaf isLeaf]
    exact iff_of_false (fun typed => nomatch typed.1) isLeaf

/-- The number of children stays. -/
theorem arity_canonical (element : SchemaElement) (atRoot : Bool) :
    (element.canonical atRoot).arity = element.arity := by
  by_cases isLeaf : element.IsLeaf
  · rw [isLeaf.arity, (isLeaf_canonical_iff.mpr isLeaf).arity]
  · rw [canonical_of_not_isLeaf isLeaf]
    rfl

/-- What a primitive is flattened to is the canonical form of any element that describes it. -/
theorem Describes.element_eq {element : SchemaElement} {leaf : Primitive}
    (describes : element.Describes leaf) (atRoot : Bool) :
    leaf.listed = element.canonical atRoot := by
  have length : (if 0 ≤ leaf.length then some leaf.length else none) =
      element.typeLength.filter (0 ≤ ·) := by
    rw [← describes.length]
    cases element.typeLength with
    | none => rfl
    | some length => simp [Option.filter]
  unfold Primitive.listed
  rw [canonical_of_isLeaf describes.isLeaf, length, ← describes.type, ← describes.repetition,
    ← describes.name, ← describes.id]

/-- What a group is flattened to is the canonical form of the element that it was read from. -/
theorem headingOf_element {element : SchemaElement} {count : Nat} (notLeaf : ¬ element.IsLeaf)
    (arity : element.arity = (count : Int)) (atRoot : Bool) :
    (Node.headingOf atRoot element).element count = element.canonical atRoot := by
  have counted : Int32.ofNat count = element.numChildren.getD 0 := by
    rw [← Int32.ofInt_toInt (element.numChildren.getD 0)]
    exact congrArg Int32.ofInt arity.symm
  unfold Heading.element
  rw [canonical_of_not_isLeaf notLeaf, counted]
  rfl

/-- Canonical elements stay as they are. -/
theorem canonical_canonical (element : SchemaElement) (atRoot : Bool) :
    (element.canonical atRoot).canonical atRoot = element.canonical atRoot := by
  by_cases isLeaf : element.IsLeaf
  · rw [canonical_of_isLeaf (isLeaf_canonical_iff.mpr isLeaf), canonical_of_isLeaf isLeaf]
    simp only [Option.filter_filter, Bool.and_self]
  · rw [canonical_of_not_isLeaf (mt isLeaf_canonical_iff.mp isLeaf), canonical_of_not_isLeaf isLeaf]
    cases atRoot <;> rfl

/-- What keeps to what is asked of an element keeps to it in canonical form. -/
theorem Sound.canonical {element : SchemaElement} (sound : element.Sound) :
    (element.canonical false).Sound := by
  refine ⟨?_, ?_, ?_⟩
  · rw [arity_canonical]
    exact sound.arity_nonneg
  · unfold SchemaElement.canonical
    split
    · exact sound.repetition
    · exact sound.repetition
  · intro isLeaf fixed
    rw [isLeaf_canonical_iff] at isLeaf
    rw [canonical_of_isLeaf isLeaf] at fixed ⊢
    obtain ⟨length, given, nonneg⟩ := sound.length isLeaf fixed
    exact ⟨length, by simp [given, Option.filter, nonneg], nonneg⟩

end Record.SchemaElement

namespace Node

/-- A list of elements in which each one is canonical. -/
def canonicalElements (elements : List SchemaElement) : List SchemaElement :=
  elements.mapIdx fun index element => element.canonical (index == 0)

/-- The first element is that of the root, and no other is. -/
theorem canonicalElements_cons (element : SchemaElement) (inner : List SchemaElement) :
    canonicalElements (element :: inner) =
      element.canonical true :: inner.map (SchemaElement.canonical false) := by
  unfold canonicalElements
  rw [List.mapIdx_cons]
  refine congrArg (List.cons _) (List.ext_getElem? fun index => ?_)
  rw [List.getElem?_mapIdx, List.getElem?_map]
  rfl

/-- The nodes of a parse are flattened to the canonical forms of the elements that were taken. -/
theorem Parse.exists_canonical {levels : Nat} {elements rest : List SchemaElement}
    {nodes : List Node} (parse : Parse levels elements nodes rest) :
    ∃ taken, elements = taken ++ rest ∧
      listingAll nodes = taken.map (SchemaElement.canonical false) := by
  apply parse.exists_taken (motive := fun _ taken nodes =>
    listingAll nodes = taken.map (SchemaElement.canonical false))
  case nil => exact fun _ => rfl
  case primitive =>
    intro levels element leaf taken beside describes outer
    rw [listingAll, Node.listing, outer, describes.element_eq false]
    rfl
  case group =>
    intro levels element inner children taken beside notLeaf arity given deeper outer
    rw [listingAll, Node.listing, outer, deeper, SchemaElement.headingOf_element notLeaf arity,
      List.map_cons, List.map_append, List.cons_append]

/-- Elements describe as many trees in canonical form. -/
theorem Stretch.canonical {levels count : Nat} {elements : List SchemaElement}
    (stretch : Stretch levels count elements) :
    Stretch levels count (elements.map (SchemaElement.canonical false)) := by
  have arities : (elements.map (SchemaElement.canonical false)).map SchemaElement.arity =
      elements.map SchemaElement.arity := by
    rw [List.map_map]
    exact List.map_congr_left fun element _ => element.arity_canonical false
  refine ⟨?_, ?_, ?_⟩
  · rw [List.forall_mem_map]
    exact fun element member => (stretch.sound element member).canonical
  · rw [arities]
    exact stretch.closes
  · rw [arities]
    exact stretch.shallow

/-- What is read is flattened to the canonical forms of its elements. -/
theorem flatten_eq_canonicalElements {elements : List SchemaElement} {root : Node}
    (read : ofElements elements = .ok root) : root.flatten = .ok (canonicalElements elements) := by
  have rooted := rooted_of_ofElements read
  obtain ⟨element, inner, children, rfl, notLeaf, arity, rfl, parse⟩ := ofElements_eq_ok.mp read
  obtain ⟨taken, rfl, flat⟩ := parse.exists_canonical
  rw [rooted.flatten_eq, Node.listing, SchemaElement.headingOf_element notLeaf arity, flat,
    List.append_nil, canonicalElements_cons]

/-- The canonical forms of elements that are read can be read themselves. -/
theorem exists_ofElements_canonicalElements {elements : List SchemaElement} {root : Node}
    (read : ofElements elements = .ok root) :
    ∃ again, ofElements (canonicalElements elements) = .ok again := by
  obtain ⟨element, inner, children, rfl, notLeaf, arity, -, parse⟩ := ofElements_eq_ok.mp read
  obtain ⟨taken, rfl, stretch⟩ := parse.exists_stretch
  obtain ⟨nodes, counted, parsed⟩ := stretch.canonical.exists_parse []
  rw [List.append_nil] at parsed ⊢
  refine ⟨_, ofElements_eq_ok.mpr ⟨element.canonical true, _, nodes, canonicalElements_cons _ _,
    mt SchemaElement.isLeaf_canonical_iff.mp notLeaf, ?_, rfl, parsed⟩⟩
  rw [SchemaElement.arity_canonical, arity, counted]

/-- A list of canonical elements stays as it is. -/
theorem canonicalElements_canonicalElements (elements : List SchemaElement) :
    canonicalElements (canonicalElements elements) = canonicalElements elements := by
  unfold canonicalElements
  rw [List.mapIdx_mapIdx]
  refine congrArg (List.mapIdx · elements) (funext₂ fun index element => ?_)
  exact element.canonical_canonical (index == 0)

/-- **Reading and flattening changes elements in place only.** What is read from some elements is
flattened to as many elements, and each of them is the canonical form of the element in its place.
These are read again, and flattening gives the very same elements then. -/
theorem flatten_ofElements {elements : List SchemaElement} {root : Node}
    (read : ofElements elements = .ok root) :
    ∃ flat, root.flatten = .ok flat ∧ flat.length = elements.length ∧
      (∀ (index : Nat) (element : SchemaElement), elements[index]? = some element →
        flat[index]? = some (element.canonical (index == 0))) ∧
      ∃ again, ofElements flat = .ok again ∧ again.flatten = .ok flat := by
  refine ⟨canonicalElements elements, flatten_eq_canonicalElements read, List.length_mapIdx, ?_, ?_⟩
  · intro index element here
    rw [canonicalElements, List.getElem?_mapIdx, here, Option.map_some]
  · obtain ⟨again, readAgain⟩ := exists_ofElements_canonicalElements read
    refine ⟨again, readAgain, ?_⟩
    rw [flatten_eq_canonicalElements readAgain, canonicalElements_canonicalElements]

/-- A root with a type and a repetition, a leaf with no children and a negative length, an empty
group without a number of children, and a group with a type. -/
def lenientElements : List SchemaElement :=
  [ ⟨some .int32, some 7, some .repeated, "root", some 3, some 1⟩,
    ⟨some .int64, some (-5), some .required, "id", some 0, none⟩,
    ⟨none, none, some .optional, "nothing", none, none⟩,
    ⟨some .boolean, some 1, some .repeated, "list", some 1, none⟩,
    ⟨some .fixedLenByteArray, some 4, some .optional, "item", none, some (-2)⟩ ]

/-- The lenient elements are read; flattened and read again, they are as a writer gives them. -/
theorem flatten_ofElements_lenient :
    ∃ root, ofElements lenientElements = .ok root ∧
      ∃ flat, root.flatten = .ok flat ∧ flat.length = 5 ∧
        flat[0]? = some ⟨none, none, none, "root", some 3, some 1⟩ ∧
        flat[1]? = some ⟨some .int64, none, some .required, "id", none, none⟩ ∧
        flat[2]? = some ⟨none, none, some .optional, "nothing", some 0, none⟩ ∧
        flat[3]? = some ⟨none, none, some .repeated, "list", some 1, none⟩ ∧
        flat[4]? = some ⟨some .fixedLenByteArray, some 4, some .optional, "item", none, some (-2)⟩ ∧
        ∃ again, ofElements flat = .ok again ∧ again.flatten = .ok flat := by
  obtain ⟨root, read⟩ : ∃ root, ofElements lenientElements = .ok root := ⟨_, rfl⟩
  obtain ⟨flat, flattened, length, canonical, again⟩ := flatten_ofElements read
  exact ⟨root, read, flat, flattened, length, canonical 0 _ rfl, canonical 1 _ rfl,
    canonical 2 _ rfl, canonical 3 _ rfl, canonical 4 _ rfl, again⟩

end Node

end ParquetFooter
