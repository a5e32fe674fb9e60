import ParquetFooter.Proofs.Schema.Parse

/-! # The shape of flattened schemas

Which lists of elements describe a schema can be told without building a tree. A count of the trees
to come starts at one; each element lowers it by one and raises it by its arity. The elements are a
single tree when the count stays positive up to the last one and is zero behind it. An element lies
below another one when the count of the trees to come there, started with the arity of the other
one, is still positive.
-/

namespace ParquetFooter

open Record

namespace Arities

/-- The count of trees to come is positive in front of every element, and zero behind the last. -/
def Closes : (pending : Int) → List Int → Prop
  | pending, [] => pending = 0
  | pending, arity :: arities => 0 < pending ∧ Closes (pending - 1 + arity) arities

/-- The count of trees to come is positive in front of every element and behind the last. -/
def Open : (pending : Int) → List Int → Prop
  | pending, [] => 0 < pending
  | pending, arity :: arities => 0 < pending ∧ Open (pending - 1 + arity) arities

instance decidableOpen : (pending : Int) → (arities : List Int) → Decidable (Open pending arities)
  | pending, [] => inferInstanceAs (Decidable (0 < pending))
  | pending, arity :: arities =>
    have := decidableOpen (pending - 1 + arity) arities
    inferInstanceAs (Decidable (0 < pending ∧ Open (pending - 1 + arity) arities))

/-- How many of the elements with these arities the next element lies below. -/
def ancestors : List Int → Nat
  | [] => 0
  | arity :: arities => (if Open arity arities then 1 else 0) + ancestors arities

/-- A count that comes to zero did not start below it. -/
theorem Closes.nonneg {pending : Int} {arities : List Int} (closes : Closes pending arities) :
    0 ≤ pending := by
  cases arities with
  | nil => exact Int.le_of_eq closes.symm
  | cons arity arities => exact Int.le_of_lt closes.1

/-- A count that stays positive started so. -/
theorem Open.pos {pending : Int} {arities : List Int} (isOpen : Open pending arities) :
    0 < pending := by
  cases arities with
  | nil => exact isOpen
  | cons arity arities => exact isOpen.1

/-- Two lists that close their counts close the sum of these together. -/
theorem Closes.append {first second : Int} {front back : List Int} (head : Closes first front)
    (tail : Closes second back) : Closes (first + second) (front ++ back) := by
  induction front generalizing first with
  | nil =>
      obtain rfl : first = 0 := head
      rwa [Int.zero_add]
  | cons arity front ih =>
      have nonneg := tail.nonneg
      refine ⟨by have positive := head.1; omega, ?_⟩
      have rest := ih head.2
      rwa [show first + second - 1 + arity = first - 1 + arity + second by omega]

/-- Where no arity is negative, the first of some trees can be split off. -/
theorem Closes.split {first second : Int} {arities : List Int}
    (nonneg : ∀ arity ∈ arities, 0 ≤ arity) (firstNonneg : 0 ≤ first) (secondNonneg : 0 ≤ second)
    (closes : Closes (first + second) arities) :
    ∃ front back, arities = front ++ back ∧ Closes first front ∧ Closes second back := by
  induction arities generalizing first with
  | nil =>
      have none : first + second = 0 := closes
      exact ⟨[], [], rfl, show first = 0 by omega, show second = 0 by omega⟩
  | cons arity arities ih =>
      by_cases done : first = 0
      · refine ⟨[], arity :: arities, rfl, done, ?_⟩
        rwa [done, Int.zero_add] at closes
      · obtain ⟨arityNonneg, others⟩ := List.forall_mem_cons.mp nonneg
        have rest := closes.2
        rw [show first + second - 1 + arity = first - 1 + arity + second by omega] at rest
        obtain ⟨front, back, rfl, head, tail⟩ := ih others (by omega) rest
        exact ⟨arity :: front, back, rfl, ⟨by omega, head⟩, tail⟩

/-- Before the last element there are trees to come. -/
theorem Closes.open_take {pending : Int} {arities : List Int} (closes : Closes pending arities)
    {index : Nat} (inside : index < arities.length) : Open pending (arities.take index) := by
  induction arities generalizing pending index with
  | nil => exact absurd inside (Nat.not_lt_zero index)
  | cons arity arities ih =>
      cases index with
      | zero => exact closes.1
      | succ index => exact ⟨closes.1, ih closes.2 (Nat.lt_of_succ_lt_succ inside)⟩

/-- Behind some trees a count that started no higher than theirs is not positive. -/
theorem Closes.not_open {pending less : Int} {front : List Int} (closes : Closes pending front)
    (le : less ≤ pending) (back : List Int) : ¬ Open less (front ++ back) := by
  induction front generalizing pending less with
  | nil =>
      intro isOpen
      have none : pending = 0 := closes
      have positive := isOpen.pos
      omega
  | cons arity front ih => exact fun isOpen => ih closes.2 (by omega) isOpen.2

/-- Nothing behind some trees lies below one of their elements. -/
theorem Closes.ancestors_append {pending : Int} {front : List Int} (closes : Closes pending front)
    (back : List Int) : ancestors (front ++ back) = ancestors back := by
  induction front generalizing pending with
  | nil => rfl
  | cons arity front ih =>
      have positive := closes.1
      rw [List.cons_append, ancestors, if_neg (closes.2.not_open (by omega) back), Nat.zero_add,
        ih closes.2]

/-- No element has as many ancestors as there are levels. -/
def Shallow (levels : Nat) (arities : List Int) : Prop :=
  ∀ index, index < arities.length → ancestors (arities.take index) < levels

theorem Shallow.nil (levels : Nat) : Shallow levels [] :=
  fun index inside => absurd inside (Nat.not_lt_zero index)

/-- The trees below an element have one level less than it, and the trees beside it as many. -/
theorem shallow_cons_append_iff {levels : Nat} {arity : Int} {front back : List Int}
    (closes : Closes arity front) :
    Shallow (levels + 1) (arity :: (front ++ back)) ↔
      Shallow levels front ∧ Shallow (levels + 1) back := by
  -- The element is an ancestor of all in front, and of nothing behind the place where they close.
  have below : ∀ index, index < front.length →
      ancestors (arity :: (front ++ back).take index) = 1 + ancestors (front.take index) := by
    intro index inside
    rw [List.take_append_of_le_length (Nat.le_of_lt inside), ancestors,
      if_pos (closes.open_take inside)]
  have beside : ∀ index,
      ancestors (arity :: (front ++ back).take (front.length + index)) =
        ancestors (back.take index) := by
    intro index
    rw [List.take_length_add_append, ancestors, if_neg (closes.not_open (Int.le_refl arity) _),
      Nat.zero_add, closes.ancestors_append]
  constructor
  · intro shallow
    constructor
    · intro index inside
      have bound := shallow (index + 1) (by simp only [List.length_cons, List.length_append]; omega)
      rw [List.take_succ_cons, below index inside] at bound
      omega
    · intro index inside
      have bound := shallow (front.length + index + 1)
        (by simp only [List.length_cons, List.length_append]; omega)
      rwa [List.take_succ_cons, beside index] at bound
  · rintro ⟨inner, outer⟩ index inside
    cases index with
    | zero => exact Nat.succ_pos levels
    | succ index =>
        rw [List.take_succ_cons]
        by_cases inFront : index < front.length
        · have bound := inner index inFront
          rw [below index inFront]
          omega
        · obtain ⟨behind, rfl⟩ := Nat.exists_eq_add_of_le (Nat.le_of_not_lt inFront)
          rw [beside behind]
          exact outer behind (by simp only [List.length_cons, List.length_append] at inside; omega)

end Arities

namespace Record.SchemaElement

/-- What is asked of an element below the root. -/
structure Sound (element : SchemaElement) : Prop where
  arity_nonneg : 0 ≤ element.arity
  repetition : element.repetition.isSome
  length : element.IsLeaf → element.type = some .fixedLenByteArray →
    ∃ length, element.typeLength = some length ∧ 0 ≤ length

/-- The element of a primitive that was made keeps to what is asked. -/
theorem sound_of_describes {element : SchemaElement} {leaf : Primitive}
    (describes : element.Describes leaf) : element.Sound where
  arity_nonneg := Int.le_of_eq describes.isLeaf.arity.symm
  repetition := by
    rw [describes.repetition]
    exact (Primitive.made_iff.mp describes.made).1
  length := by
    intro _ fixed
    have nonneg := (Primitive.made_iff.mp describes.made).2
      (Option.some.inj (describes.type.symm.trans fixed))
    rw [← describes.length] at nonneg
    cases given : element.typeLength with
    | none =>
        rw [given] at nonneg
        exact absurd nonneg (by decide)
    | some length =>
        rw [given] at nonneg
        exact ⟨length, rfl, nonneg⟩

/-- The element of a leaf that keeps to what is asked describes a primitive. -/
theorem Sound.exists_describes {element : SchemaElement} (sound : element.Sound)
    (isLeaf : element.IsLeaf) : ∃ leaf, element.Describes leaf := by
  obtain ⟨type, typed⟩ := Option.isSome_iff_exists.mp isLeaf.1
  obtain ⟨repetition, given⟩ := Option.isSome_iff_exists.mp sound.repetition
  refine ⟨⟨element.name, some repetition, type, element.typeLength.getD (-1), element.fieldId⟩,
    ⟨Primitive.made_iff.mpr ⟨rfl, ?_⟩, isLeaf, typed, given, rfl, rfl, rfl⟩⟩
  rintro rfl
  obtain ⟨length, same, nonneg⟩ := sound.length isLeaf typed
  rwa [same]

end Record.SchemaElement

namespace Node

open Arities

/-- Some elements describe `count` trees of at most `levels` levels. -/
structure Stretch (levels count : Nat) (elements : List SchemaElement) : Prop where
  sound : ∀ element ∈ elements, element.Sound
  closes : Closes count (elements.map SchemaElement.arity)
  shallow : Shallow levels (elements.map SchemaElement.arity)

theorem Stretch.nil (levels : Nat) : Stretch levels 0 [] :=
  ⟨List.forall_mem_nil _, rfl, .nil levels⟩

/-- Only no elements describe no trees. -/
theorem Stretch.eq_nil {levels : Nat} {elements : List SchemaElement}
    (stretch : Stretch levels 0 elements) : elements = [] := by
  cases elements with
  | nil => rfl
  | cons element elements => exact absurd stretch.closes.1 (Int.lt_irrefl 0)

/-- The trees that elements describe begin with the tree of the first element. -/
theorem stretch_cons_iff {levels count : Nat} {element : SchemaElement}
    {elements : List SchemaElement} :
    Stretch (levels + 1) (count + 1) (element :: elements) ↔
      element.Sound ∧ ∃ inner beside, elements = inner ++ beside ∧
        Stretch levels element.arity.toNat inner ∧ Stretch (levels + 1) count beside := by
  constructor
  · rintro ⟨sound, ⟨-, closes⟩, shallow⟩
    obtain ⟨head, others⟩ := List.forall_mem_cons.mp sound
    have arity := Int.toNat_of_nonneg head.arity_nonneg
    have nonneg : ∀ arity ∈ elements.map SchemaElement.arity, 0 ≤ arity :=
      List.forall_mem_map.mpr fun element member => (others element member).arity_nonneg
    -- Behind the first element, its children and the other trees are pending together.
    rw [show ((count + 1 : Nat) : Int) - 1 + element.arity = element.arity + count by omega]
      at closes
    obtain ⟨front, back, parts, first, second⟩ :=
      closes.split nonneg head.arity_nonneg (Int.natCast_nonneg count)
    obtain ⟨inner, beside, rfl, rfl, rfl⟩ := List.map_eq_append_iff.mp parts
    rw [List.map_cons, List.map_append] at shallow
    obtain ⟨below, outer⟩ := (shallow_cons_append_iff first).mp shallow
    obtain ⟨innerSound, besideSound⟩ := List.forall_mem_append.mp others
    exact ⟨head, inner, beside, rfl, ⟨innerSound, arity.symm ▸ first, below⟩,
      ⟨besideSound, second, outer⟩⟩
  · rintro ⟨head, inner, beside, rfl, below, others⟩
    have arity := Int.toNat_of_nonneg head.arity_nonneg
    have closes := arity ▸ below.closes
    refine ⟨?_, ?_, ?_⟩
    · exact List.forall_mem_cons.mpr ⟨head, List.forall_mem_append.mpr ⟨below.sound, others.sound⟩⟩
    · refine ⟨Int.natCast_pos.mpr (Nat.succ_pos count), ?_⟩
      rw [show ((count + 1 : Nat) : Int) - 1 + element.arity = element.arity + count by omega,
        List.map_append]
      exact closes.append others.closes
    · rw [List.map_cons, List.map_append]
      exact (shallow_cons_append_iff closes).mpr ⟨below.shallow, others.shallow⟩

/-- What is parsed describes as many trees as come of it. -/
theorem Parse.exists_stretch {levels : Nat} {elements rest : List SchemaElement}
    {nodes : List Node} (parse : Parse levels elements nodes rest) :
    ∃ used, elements = used ++ rest ∧ Stretch levels nodes.length used := by
  apply parse.exists_taken
  case nil => exact Stretch.nil
  case primitive =>
    intro levels element leaf taken beside describes outer
    refine stretch_cons_iff.mpr ⟨SchemaElement.sound_of_describes describes, [], taken, rfl, ?_,
      outer⟩
    rw [describes.isLeaf.arity]
    exact .nil _
  case group =>
    intro levels element inner children taken beside notLeaf arity given deeper outer
    refine stretch_cons_iff.mpr
      ⟨⟨?_, given, fun isLeaf => absurd isLeaf notLeaf⟩, inner, taken, rfl, ?_, outer⟩
    · rw [arity]
      exact Int.natCast_nonneg _
    · rwa [arity, Int.toNat_natCast]

/-- Elements that describe some trees have a parse, whatever follows them. -/
theorem Stretch.exists_parse {levels count : Nat} {used : List SchemaElement}
    (stretch : Stretch levels count used) (rest : List SchemaElement) :
    ∃ nodes, nodes.length = count ∧ Parse levels (used ++ rest) nodes rest := by
  induction length : used.length using Nat.strongRecOn generalizing levels count used rest with
  | ind size ih =>
    cases used with
    | nil =>
        obtain rfl : count = 0 := Int.natCast_eq_zero.mp stretch.closes
        exact ⟨[], rfl, .nil⟩
    | cons element elements =>
        obtain ⟨levels, rfl⟩ : ∃ less, levels = less + 1 :=
          Nat.exists_eq_succ_of_ne_zero (Nat.ne_of_gt (stretch.shallow 0 (Nat.succ_pos _)))
        obtain ⟨count, rfl⟩ : ∃ less, count = less + 1 :=
          Nat.exists_eq_succ_of_ne_zero (Nat.ne_of_gt (Int.natCast_pos.mp stretch.closes.1))
        obtain ⟨sound, inner, beside, rfl, below, others⟩ := stretch_cons_iff.mp stretch
        rw [List.length_cons, List.length_append] at length
        obtain ⟨children, counted, inside⟩ := ih _ (by omega) below (beside ++ rest) rfl
        obtain ⟨nodes, rfl, behind⟩ := ih _ (by omega) others rest rfl
        rw [List.cons_append, List.append_assoc]
        by_cases isLeaf : element.IsLeaf
        · rw [isLeaf.arity] at below
          obtain rfl := below.eq_nil
          obtain ⟨leaf, describes⟩ := sound.exists_describes isLeaf
          exact ⟨.primitive leaf :: nodes, rfl, .primitive describes behind⟩
        · refine ⟨.group (headingOf false element) children :: nodes, rfl,
            .group isLeaf ?_ sound.repetition inside behind⟩
          rw [counted, Int.toNat_of_nonneg sound.arity_nonneg]

/-- A list of elements is a well-formed flattened schema. Nothing is said of its tree but what a
count of arities tells. -/
structure WellFormed (elements : List SchemaElement) : Prop where
  /-- There is a first element, and it is no leaf. -/
  first : ∃ root inner, elements = root :: inner ∧ ¬ root.IsLeaf
  /-- No arity is negative. -/
  arity_nonneg : ∀ element ∈ elements, 0 ≤ element.arity
  /-- Every element but the first has a repetition. -/
  repetition : ∀ element ∈ elements.tail, element.repetition.isSome
  /-- Every leaf of a fixed length has a length. -/
  length : ∀ element ∈ elements, element.IsLeaf → element.type = some .fixedLenByteArray →
    ∃ length, element.typeLength = some length ∧ 0 ≤ length
  /-- The count of trees to come, which starts at one, is zero behind the last element and not
  before. -/
  closes : Closes 1 (elements.map SchemaElement.arity)
  /-- No element has more than 128 ancestors. -/
  shallow : ∀ index, index < elements.length →
    ancestors ((elements.take index).map SchemaElement.arity) ≤ 128

/-- Behind an element that is no leaf, a well-formed schema has as many trees as that announces. -/
theorem wellFormed_cons_iff {element : SchemaElement} {inner : List SchemaElement} :
    WellFormed (element :: inner) ↔
      ¬ element.IsLeaf ∧ 0 ≤ element.arity ∧ Stretch maxDepth element.arity.toNat inner := by
  have shallow_iff : (∀ index, index < (element :: inner).length →
      ancestors (((element :: inner).take index).map SchemaElement.arity) ≤ 128) ↔
      Shallow (maxDepth + 1) ((element :: inner).map SchemaElement.arity) := by
    simp only [Shallow, List.length_map, List.map_take, maxDepth, Nat.lt_succ_iff]
  constructor
  · intro wellFormed
    obtain ⟨_, _, same, notLeaf⟩ := wellFormed.first
    obtain ⟨rfl, rfl⟩ := List.cons.inj same
    have nonneg := wellFormed.arity_nonneg element List.mem_cons_self
    have closes : Closes element.arity (inner.map SchemaElement.arity) := by
      have whole := wellFormed.closes.2
      rwa [Int.sub_self, Int.zero_add] at whole
    have shallow := shallow_iff.mp wellFormed.shallow
    rw [List.map_cons, ← List.append_nil (inner.map SchemaElement.arity)] at shallow
    refine ⟨notLeaf, nonneg, ?_, ?_, ((shallow_cons_append_iff closes).mp shallow).1⟩
    · exact fun other member => ⟨wellFormed.arity_nonneg other (List.mem_cons_of_mem _ member),
        wellFormed.repetition other member, wellFormed.length other (List.mem_cons_of_mem _ member)⟩
    · rwa [Int.toNat_of_nonneg nonneg]
  · rintro ⟨notLeaf, nonneg, stretch⟩
    have closes := stretch.closes
    rw [Int.toNat_of_nonneg nonneg] at closes
    refine ⟨⟨element, inner, rfl, notLeaf⟩, ?_, ?_, ?_, ?_, shallow_iff.mpr ?_⟩
    · exact List.forall_mem_cons.mpr
        ⟨nonneg, fun other member => (stretch.sound other member).arity_nonneg⟩
    · exact fun other member => (stretch.sound other member).repetition
    · exact List.forall_mem_cons.mpr ⟨fun isLeaf => absurd isLeaf notLeaf,
        fun other member => (stretch.sound other member).length⟩
    · refine ⟨Int.one_pos, ?_⟩
      rwa [Int.sub_self, Int.zero_add]
    · rw [List.map_cons, ← List.append_nil (inner.map SchemaElement.arity)]
      exact (shallow_cons_append_iff closes).mpr ⟨stretch.shallow, .nil _⟩

/-- **Exactly the well-formed flattened schemas are read.** -/
theorem ofElements_succeeds_iff (elements : List SchemaElement) :
    (∃ root, ofElements elements = .ok root) ↔ WellFormed elements := by
  constructor
  · rintro ⟨root, read⟩
    obtain ⟨element, inner, children, rfl, notLeaf, arity, -, parse⟩ := ofElements_eq_ok.mp read
    obtain ⟨used, rfl, stretch⟩ := parse.exists_stretch
    rw [List.append_nil]
    refine wellFormed_cons_iff.mpr ⟨notLeaf, by rw [arity]; exact Int.natCast_nonneg _, ?_⟩
    rwa [arity, Int.toNat_natCast]
  · intro wellFormed
    obtain ⟨element, inner, rfl, -⟩ := wellFormed.first
    obtain ⟨notLeaf, nonneg, stretch⟩ := wellFormed_cons_iff.mp wellFormed
    obtain ⟨children, counted, parse⟩ := stretch.exists_parse []
    rw [List.append_nil] at parse
    refine ⟨.group (headingOf true element) children, ofElements_eq_ok.mpr
      ⟨element, inner, children, rfl, notLeaf, ?_, rfl, parse⟩⟩
    rw [counted, Int.toNat_of_nonneg nonneg]

end Node

end ParquetFooter
