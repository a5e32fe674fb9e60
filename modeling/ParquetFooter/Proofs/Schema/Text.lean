import ParquetFooter.Proofs.Schema.Listing
import ParquetFooter.Schema.Text

/-! # What a printed schema tells

A tree is printed where every primitive has a repetition, which is so where it was made from a
specification. The text determines all of the tree that is printed: its shape, the names, the
repetitions, the physical types, and the lengths of the types that have one. A name may hold blanks,
brackets and words of the format, but no line feed, so the lines can be told apart. The last letter
of a line says whether it is a primitive or opens a group. What stands behind the last child of a
group is told by its indentation, which is less than that of a child.
-/

/-- A list is cut at the first place of a value in one way only. -/
theorem List.append_cons_inj_of_first {α : Type} [DecidableEq α] {value : α}
    {left right behindLeft behindRight : List α} (first : value ∉ left) (first' : value ∉ right)
    (same : left ++ value :: behindLeft = right ++ value :: behindRight) :
    left = right ∧ behindLeft = behindRight := by
  have cut := congrArg (List.splitOn value) same
  rw [List.splitOn_append_cons_self_of_not_mem first,
    List.splitOn_append_cons_self_of_not_mem first'] at cut
  obtain ⟨rfl, -⟩ := List.cons.inj cut
  exact ⟨rfl, (List.cons.inj (List.append_cancel_left same)).2⟩

namespace ParquetFooter

/-- Lines can be told apart in a text when none of them holds a line feed. -/
theorem unlines_inj {left right : List String} (plain : ∀ line ∈ left, '\n' ∉ line.toList)
    (plain' : ∀ line ∈ right, '\n' ∉ line.toList) (same : unlines left = unlines right) :
    left = right := by
  rw [← String.toList_inj, toList_unlines, toList_unlines] at same
  induction left generalizing right with
  | nil =>
      cases right with
      | nil => rfl
      | cons line' others' => simp at same
  | cons line others ih =>
      cases right with
      | nil => simp at same
      | cons line' others' =>
          rw [List.forall_mem_cons] at plain plain'
          simp only [List.flatMap_cons, List.append_assoc, List.singleton_append] at same
          obtain ⟨first, rest⟩ := List.append_cons_inj_of_first plain.1 plain'.1 same
          rw [String.toList_inj.mp first, ih plain.2 plain'.2 rest]

/-- The letters of an indented line are blanks in front of its own. -/
theorem toList_indented (width : Nat) (line : String) :
    (indented width line).toList = List.replicate width ' ' ++ line.toList := by
  rw [indented, repeated, String.toList_append, String.toList_ofList]

/-- Lines that are indented alike are told by their letters behind the blanks. -/
theorem indented_inj {width : Nat} {left right : String} :
    indented width left = indented width right ↔ left = right :=
  String.append_right_inj _

/-- An enumeration whose names are printed: a name is one word, and only one value has it. -/
structure Enumeration.Worded (α : Type) [Enumeration α] : Prop where
  ofName?_name : ∀ value : α, ofName? (name value) = some value
  no_blank : ∀ value : α, ' ' ∉ (name value).toList
  no_feed : ∀ value : α, '\n' ∉ (name value).toList

/-- The names of physical types are words. -/
theorem PhysicalType.worded : Enumeration.Worded PhysicalType where
  ofName?_name type := by cases type <;> rfl
  no_blank type := by cases type <;> decide
  no_feed type := by cases type <;> decide

/-- The names of repetitions are words. -/
theorem Repetition.worded : Enumeration.Worded Repetition where
  ofName?_name repetition := by cases repetition <;> rfl
  no_blank repetition := by cases repetition <;> decide
  no_feed repetition := by cases repetition <;> decide

/-- The value and what follows are told from a text that starts with the name of a value. -/
theorem Enumeration.Worded.append_inj {α : Type} [Enumeration α] (worded : Worded α)
    {left right : α} {behindLeft behindRight : List Char}
    (same : (name left).toList ++ ' ' :: behindLeft = (name right).toList ++ ' ' :: behindRight) :
    left = right ∧ behindLeft = behindRight := by
  obtain ⟨word, behind⟩ :=
    List.append_cons_inj_of_first (worded.no_blank left) (worded.no_blank right) same
  have found := worded.ofName?_name left
  rw [String.toList_inj.mp word, worded.ofName?_name] at found
  exact ⟨(Option.some.inj found).symm, behind⟩

namespace Primitive

variable {left right : Primitive}

/-- What is printed of a primitive: neither its id, nor a length that its type does not have. -/
def shown (leaf : Primitive) : Primitive where
  name := leaf.name
  repetition := leaf.repetition
  physicalType := leaf.physicalType
  length := if leaf.physicalType = .fixedLenByteArray then leaf.length else -1
  id := none

/-- The letters between the physical type and the name. A fixed length is not negative, so it is
printed in digits alone. -/
def lengthText (leaf : Primitive) : List Char :=
  if leaf.physicalType = .fixedLenByteArray then
    '(' :: (Nat.toDigits 10 leaf.length.toNatClampNeg ++ [')', ' '])
  else []

/-- A primitive that was made has a length where its type has one. -/
theorem Made.toInt_length_nonneg {leaf : Primitive} (made : leaf.Made)
    (fixed : leaf.physicalType = .fixedLenByteArray) : 0 ≤ leaf.length.toInt :=
  Int32.le_iff_toInt_le.mp ((made_iff.mp made).2 fixed)

/-- A primitive is printed when it has a repetition. -/
theorem line_eq_ok {leaf : Primitive} {line : String} :
    leaf.line = .ok line ↔ ∃ repetition, leaf.repetition = some repetition ∧
      line = s!"{Enumeration.name repetition} {leaf.typeText} {leaf.name};" := by
  rw [Primitive.line, Node.repetition, Node.repetition?]
  cases leaf.repetition with
  | none =>
      constructor
      · intro printed
        cases printed
      · rintro ⟨_, missing, -⟩
        cases missing
  | some repetition =>
      constructor
      · intro printed
        exact ⟨repetition, rfl, (Except.ok.inj printed).symm⟩
      · rintro ⟨_, same, rfl⟩
        obtain rfl := Option.some.inj same
        rfl

/-- The letters of the line of a primitive that was made. -/
theorem Made.toList_of_line {leaf : Primitive} {line : String} (made : leaf.Made)
    (printed : leaf.line = .ok line) :
    ∃ repetition, leaf.repetition = some repetition ∧
      line.toList = (Enumeration.name repetition).toList ++ ' ' ::
        ((Enumeration.name leaf.physicalType).toList ++ ' ' ::
          (leaf.lengthText ++ (leaf.name.toList ++ [';']))) := by
  obtain ⟨repetition, given, rfl⟩ := line_eq_ok.mp printed
  refine ⟨repetition, given, ?_⟩
  by_cases fixed : leaf.physicalType = .fixedLenByteArray
  · have digits : leaf.length.toInt.repr.toList = Nat.toDigits 10 leaf.length.toNatClampNeg := by
      rw [Int.repr_eq_if, if_pos (made.toInt_length_nonneg fixed), Nat.repr_eq_ofList_toDigits,
        String.toList_ofList, Int32.toNat_toInt]
    simp [typeText, fixed, lengthText, toString, digits]
  · have bare : leaf.typeText = Enumeration.name leaf.physicalType := by
      unfold typeText
      split
      next other => exact absurd other fixed
      next => rfl
    simp [bare, lengthText, fixed, toString]

/-- Neither the id nor a length that the type does not have changes the line. -/
theorem line_shown (leaf : Primitive) : leaf.shown.line = leaf.line := by
  have type : leaf.shown.typeText = leaf.typeText := by
    by_cases fixed : leaf.physicalType = .fixedLenByteArray
    · simp [shown, typeText, fixed]
    · unfold typeText
      split
      next other => exact absurd other fixed
      next => rw [shown]
  rw [line, line, type]
  rfl

/-- A number is written in digits only. -/
theorem not_mem_digits {letter : Char} (other : ¬ letter.isDigit) (number : Nat) :
    letter ∉ Nat.toDigits 10 number :=
  fun member => other (Nat.isDigit_of_mem_toDigits (by decide) (Nat.le_refl 10) member)

/-- Where the type of two primitives has a length, the digits tell it. -/
theorem Made.lengthText_append_inj (made : left.Made) (made' : right.Made)
    (type : left.physicalType = right.physicalType)
    {behindLeft behindRight : List Char}
    (same : left.lengthText ++ behindLeft = right.lengthText ++ behindRight) :
    (left.physicalType = .fixedLenByteArray → left.length = right.length) ∧
      behindLeft = behindRight := by
  unfold lengthText at same
  by_cases fixed : left.physicalType = .fixedLenByteArray
  · rw [if_pos fixed, if_pos (type ▸ fixed)] at same
    simp only [List.cons_append, List.append_assoc, List.cons.injEq, true_and, List.nil_append]
      at same
    obtain ⟨digits, rest⟩ := List.append_cons_inj_of_first (not_mem_digits (by decide) _)
      (not_mem_digits (by decide) _) same
    have number := congrArg (Nat.ofDigitChars 10 · 0) digits
    simp only [Nat.ofDigitChars_ten_toDigits, ← Int32.toNat_toInt] at number
    have nonneg := made.toInt_length_nonneg fixed
    have nonneg' := made'.toInt_length_nonneg (type ▸ fixed)
    exact ⟨fun _ => Int32.toInt_inj.mp (by omega), (List.cons.inj rest).2⟩
  · rw [if_neg fixed, if_neg (type ▸ fixed)] at same
    exact ⟨fun given => absurd given fixed, same⟩

/-- The line of a primitive tells all that is printed of it. -/
theorem Made.line_inj {line : String} (made : left.Made) (made' : right.Made)
    (printed : left.line = .ok line) (printed' : right.line = .ok line) :
    left.shown = right.shown := by
  obtain ⟨repetition, given, letters⟩ := made.toList_of_line printed
  obtain ⟨repetition', given', letters'⟩ := made'.toList_of_line printed'
  rw [letters] at letters'
  obtain ⟨rfl, same⟩ := Repetition.worded.append_inj letters'
  obtain ⟨type, same⟩ := PhysicalType.worded.append_inj same
  obtain ⟨length, same⟩ := made.lengthText_append_inj made' type same
  have name := String.toList_inj.mp (List.append_cancel_right same)
  have lengths : left.shown.length = right.shown.length := by
    unfold shown
    by_cases fixed : left.physicalType = .fixedLenByteArray
    · simp only [if_pos fixed, if_pos (type ▸ fixed), length fixed]
    · simp only [if_neg fixed, if_neg (type ▸ fixed)]
  unfold shown at lengths ⊢
  simp only [Primitive.mk.injEq]
  exact ⟨name, given.trans given'.symm, type, lengths, trivial⟩

/-- A primitive is printed on one line if its name is one. -/
theorem Made.no_feed_line {leaf : Primitive} {line : String} (made : leaf.Made)
    (printed : leaf.line = .ok line) (plain : '\n' ∉ leaf.name.toList) : '\n' ∉ line.toList := by
  obtain ⟨repetition, -, letters⟩ := made.toList_of_line printed
  have length : '\n' ∉ leaf.lengthText := by
    unfold lengthText
    split
    next => simp [not_mem_digits]
    next => exact List.not_mem_nil
  simp [letters, Repetition.worded.no_feed, PhysicalType.worded.no_feed, length, plain]

/-- The line of a primitive ends in a semicolon. -/
theorem Made.getLast?_of_line {leaf : Primitive} {line : String} (made : leaf.Made)
    (printed : leaf.line = .ok line) : line.toList.getLast? = some ';' := by
  obtain ⟨repetition, -, letters⟩ := made.toList_of_line printed
  simp [letters, List.getLast?_cons]

end Primitive

namespace Heading

variable {left right : Heading}

/-- What is printed of the heading of a group: not its id. -/
def shown (heading : Heading) : Heading := { heading with id := none }

theorem toList_line_of_some {heading : Heading} {repetition : Repetition}
    (given : heading.repetition = some repetition) :
    heading.line.toList = (Enumeration.name repetition).toList ++ ' ' ::
      ("group ".toList ++ (heading.name.toList ++ [' ', '\x7b'])) := by
  simp [line, given, toString]

theorem toList_line_of_none {heading : Heading} (none : heading.repetition = none) :
    heading.line.toList = "message".toList ++ ' ' :: (heading.name.toList ++ [' ', '\x7b']) := by
  simp [line, none, toString]

/-- A message is no repetition. -/
theorem line_ne_of_some_of_none {repetition : Repetition}
    (given : left.repetition = some repetition) (none : right.repetition = none) :
    left.line ≠ right.line := by
  intro same
  rw [← String.toList_inj, toList_line_of_some given, toList_line_of_none none] at same
  have message : ' ' ∉ "message".toList := by decide
  obtain ⟨word, -⟩ :=
    List.append_cons_inj_of_first (Repetition.worded.no_blank repetition) message same
  cases repetition <;> exact absurd word (by decide)

/-- The line that opens a group tells all that is printed of its heading. -/
theorem line_inj (same : left.line = right.line) : left.shown = right.shown := by
  have told : left.repetition = right.repetition ∧ left.name = right.name := by
    cases given : left.repetition with
    | some repetition =>
        cases given' : right.repetition with
        | some repetition' =>
            rw [← String.toList_inj, toList_line_of_some given, toList_line_of_some given'] at same
            obtain ⟨rfl, rest⟩ := Repetition.worded.append_inj same
            have name := List.append_cancel_right (List.append_cancel_left rest)
            exact ⟨rfl, String.toList_inj.mp name⟩
        | none => exact absurd same (line_ne_of_some_of_none given given')
    | none =>
        cases given' : right.repetition with
        | some repetition' => exact absurd same.symm (line_ne_of_some_of_none given' given)
        | none =>
            rw [← String.toList_inj, toList_line_of_none given, toList_line_of_none given'] at same
            have rest := (List.cons.inj (List.append_cancel_left same)).2
            exact ⟨rfl, String.toList_inj.mp (List.append_cancel_right rest)⟩
  rw [shown, shown, told.1, told.2]

/-- A group is opened on one line if its name is one. -/
theorem no_feed_line {heading : Heading} (plain : '\n' ∉ heading.name.toList) :
    '\n' ∉ heading.line.toList := by
  cases given : heading.repetition with
  | some repetition =>
      rw [toList_line_of_some given]
      simp [Repetition.worded.no_feed, plain]
  | none =>
      rw [toList_line_of_none given]
      simp [plain]

/-- The line that opens a group ends in a bracket. -/
theorem getLast?_line (heading : Heading) : heading.line.toList.getLast? = some '\x7b' := by
  cases given : heading.repetition with
  | some repetition => simp [toList_line_of_some given, List.getLast?_cons]
  | none => simp [toList_line_of_none given, List.getLast?_cons]

/-- A line that opens a group is not the line of a primitive. -/
theorem line_ne_primitive (heading : Heading) {leaf : Primitive} {line : String}
    (made : leaf.Made) (printed : leaf.line = .ok line) : heading.line ≠ line := by
  rintro rfl
  have last := made.getLast?_of_line printed
  rw [heading.getLast?_line] at last
  exact absurd (Option.some.inj last) (by decide)

end Heading

namespace Node

mutual

/-- What is printed of a tree: neither ids, nor lengths of types that have none. -/
def shown : Node → Node
  | primitive leaf => primitive leaf.shown
  | group heading children => group heading.shown (shownAll children)

/-- What is printed of several trees. -/
def shownAll : List Node → List Node
  | [] => []
  | node :: nodes => node.shown :: shownAll nodes

end

/-- No name in a tree holds a line feed. -/
def Plain (root : Node) : Prop := ∀ entry ∈ root.withDepths 0, '\n' ∉ entry.2.name.toList

/-- The first line of a node, without indentation. -/
def opening : Node → Except Breach String
  | primitive leaf => leaf.line
  | group heading _ => .ok heading.line

/-- Some trees whose primitives were made are printed on some lines, `width` blanks in. -/
inductive Prints : Nat → List Node → List String → Prop
  | nil {width} : Prints width [] []
  | primitive {width leaf line beside behind} (made : leaf.Made) (printed : leaf.line = .ok line)
      (others : Prints width beside behind) :
      Prints width (.primitive leaf :: beside) (indented width line :: behind)
  | group {width heading children inner beside behind} (below : Prints (width + 2) children inner)
      (others : Prints width beside behind) :
      Prints width (.group heading children :: beside)
        (indented width heading.line :: (inner ++ indented width "\x7d" :: behind))

/-- Trees whose primitives were made are printed. -/
theorem exists_prints {depth : Nat} {nodes : List Node}
    (made : ∀ entry ∈ withDepthsAll depth nodes, entry.2.Made) (width : Nat) :
    ∃ lines, linesAll width nodes = .ok lines ∧ Prints width nodes lines := by
  induction nodes using forest_induction generalizing depth width with
  | nil => exact ⟨[], rfl, .nil⟩
  | primitive leaf beside ih =>
      rw [forall_mem_primitive_cons_iff] at made
      obtain ⟨repetition, given⟩ := Option.isSome_iff_exists.mp (Primitive.made_iff.mp made.1).1
      have printed := Primitive.line_eq_ok.mpr ⟨repetition, given, rfl⟩
      obtain ⟨behind, rest, others⟩ := ih made.2 width
      refine ⟨_, ?_, .primitive made.1 printed others⟩
      rw [linesAll, lines, printed, rest]
      rfl
  | group heading children beside inner ih =>
      rw [forall_mem_group_cons_iff] at made
      obtain ⟨lines, inside, below⟩ := inner made.1.2 (width + 2)
      obtain ⟨behind, rest, others⟩ := ih made.2 width
      refine ⟨_, ?_, .group below others⟩
      rw [linesAll, Node.lines, inside, rest, ← List.singleton_append (l := behind),
        ← List.append_assoc, ← List.cons_append]
      rfl

/-- The first line of some trees is that of the first of them. -/
theorem Prints.exists_opening {width : Nat} {node : Node} {nodes : List Node}
    {lines : List String} (prints : Prints width (node :: nodes) lines) :
    ∃ line, node.opening = .ok line ∧
      ∀ rest, (lines ++ rest).head? = some (indented width line) := by
  cases prints with
  | primitive made printed others => exact ⟨_, printed, fun _ => rfl⟩
  | group below others => exact ⟨_, rfl, fun _ => rfl⟩

/-- Ids and lengths of types that have none are not printed. -/
theorem linesAll_shownAll (width : Nat) (nodes : List Node) :
    linesAll width (shownAll nodes) = linesAll width nodes := by
  induction nodes using forest_induction generalizing width with
  | nil => rfl
  | primitive leaf beside ih =>
      rw [shownAll, shown, linesAll, linesAll, lines, lines, leaf.line_shown, ih]
  | group heading children beside inner ih =>
      rw [shownAll, shown, linesAll, linesAll, lines, lines, inner, ih]
      rfl

/-- Where no name holds a line feed, no line does. -/
theorem Prints.no_feed {depth width : Nat} {nodes : List Node} {lines : List String}
    (prints : Prints width nodes lines)
    (plain : ∀ entry ∈ withDepthsAll depth nodes, '\n' ∉ entry.2.name.toList) :
    ∀ line ∈ lines, '\n' ∉ line.toList := by
  have moved {line : String} (whole : '\n' ∉ line.toList) (width : Nat) :
      '\n' ∉ (indented width line).toList := by
    simp [toList_indented, whole]
  induction prints generalizing depth with
  | nil => exact List.forall_mem_nil _
  | primitive made printed others ih =>
      rw [forall_mem_primitive_cons_iff] at plain
      rw [List.forall_mem_cons]
      exact ⟨moved (made.no_feed_line printed plain.1) _, ih plain.2⟩
  | @group width heading children lines beside behind below others inner ih =>
      rw [forall_mem_group_cons_iff] at plain
      rw [List.forall_mem_cons, List.forall_mem_append, List.forall_mem_cons]
      exact ⟨moved (heading.no_feed_line plain.1.1) width, inner plain.1.2,
        moved (by decide) width, ih plain.2⟩

/-- Some lines do not go on with a node at this indentation. -/
def Ended (width : Nat) (behind : List String) : Prop :=
  ∀ line, behind.head? = some (indented width line) → ∀ node : Node, node.opening ≠ .ok line

theorem ended_nil (width : Nat) : Ended width [] := by
  intro line same
  cases same

/-- What closes a group stands two blanks left of where a child would stand. -/
theorem ended_closing (width : Nat) (behind : List String) :
    Ended (width + 2) (indented width "\x7d" :: behind) := by
  intro line same
  have letters := Option.some.inj same
  rw [← String.toList_inj, toList_indented, toList_indented,
    ← List.replicate_append_replicate, List.append_assoc] at letters
  exact absurd (List.append_cancel_left letters) (by simp [List.replicate])

/-- Where lines do not go on with a node, no trees are printed on them. -/
theorem Ended.not_prints {width : Nat} {node : Node} {nodes : List Node}
    {lines rest behind : List String} (ended : Ended width behind)
    (prints : Prints width (node :: nodes) lines) : behind ≠ lines ++ rest := by
  rintro rfl
  obtain ⟨line, opens, head⟩ := prints.exists_opening
  exact ended line (head rest) node opens

/-- The lines of some trees tell all that is printed of them, and where they end. The induction is
on the lines of the trees on the left; the first line tells what the first tree on the right is. -/
theorem Prints.append_inj {width : Nat} {left right : List Node}
    {lines lines' behind behind' : List String} (prints : Prints width left lines)
    (prints' : Prints width right lines') (ended : Ended width behind)
    (ended' : Ended width behind') (same : lines ++ behind = lines' ++ behind') :
    shownAll left = shownAll right ∧ behind = behind' := by
  induction prints generalizing right lines' behind behind' with
  | nil =>
      cases right with
      | nil =>
          cases prints'
          exact ⟨rfl, same⟩
      | cons node nodes => exact absurd same (ended.not_prints prints')
  | primitive made printed others ih =>
      cases prints' with
      | nil => exact absurd same.symm (ended'.not_prints (.primitive made printed others))
      | primitive made' printed' others' =>
          obtain ⟨line, rest⟩ := List.cons.inj same
          obtain rfl := indented_inj.mp line
          obtain ⟨siblings, ends⟩ := ih others' ended ended' rest
          have first := made.line_inj made' printed printed'
          exact ⟨by rw [shownAll, shownAll, shown, shown, first, siblings], ends⟩
      | @group _ heading' _ _ _ _ below' others' =>
          have line := indented_inj.mp (List.cons.inj same).1
          exact absurd line.symm (heading'.line_ne_primitive made printed)
  | @group _ heading _ _ _ _ below others inner ih =>
      cases prints' with
      | nil => exact absurd same.symm (ended'.not_prints (.group below others))
      | primitive made' printed' others' =>
          have line := indented_inj.mp (List.cons.inj same).1
          exact absurd line (heading.line_ne_primitive made' printed')
      | group below' others' =>
          rw [List.cons_append, List.cons_append, List.append_assoc, List.append_assoc] at same
          obtain ⟨line, rest⟩ := List.cons.inj same
          -- Behind the children of both stands a closing bracket, which opens no further child.
          obtain ⟨children, rest⟩ := inner below' (ended_closing _ _) (ended_closing _ _) rest
          obtain ⟨siblings, ends⟩ := ih others' ended ended' (List.cons.inj rest).2
          have first := Heading.line_inj (indented_inj.mp line)
          exact ⟨by rw [shownAll, shownAll, shown, shown, first, children, siblings], ends⟩

/-- One tree is printed as a list of one tree is. -/
theorem lines_eq (node : Node) : node.lines 0 = linesAll 0 [node] := by
  rw [linesAll, linesAll]
  cases node.lines 0 with
  | error breach => rfl
  | ok lines => exact congrArg Except.ok (List.append_nil lines).symm

/-- A tree whose primitives were made has a text. -/
theorem exists_text {root : Node} (made : ∀ entry ∈ root.withDepths 0, entry.2.Made) :
    ∃ lines, root.lines 0 = .ok lines ∧ Prints 0 [root] lines ∧
      root.text = .ok (unlines lines) := by
  rw [← withDepthsAll_singleton] at made
  obtain ⟨lines, printed, prints⟩ := exists_prints made 0
  rw [← lines_eq] at printed
  refine ⟨lines, printed, prints, ?_⟩
  rw [text, printed]
  rfl

/-- **A printed schema tells all that is printed of it.** Let the primitives of two trees come
from specifications, and let no name hold a line feed. Then both trees have a text, and the texts
are equal if and only if the trees are, once ids and the lengths of primitives whose type has none
are disregarded. -/
theorem text_eq_text_iff {left right : Node}
    (made : ∀ entry ∈ left.withDepths 0, entry.2.Made)
    (made' : ∀ entry ∈ right.withDepths 0, entry.2.Made)
    (plain : left.Plain) (plain' : right.Plain) :
    ∃ text text', left.text = .ok text ∧ right.text = .ok text' ∧
      (text = text' ↔ left.shown = right.shown) := by
  obtain ⟨lines, printed, prints, text⟩ := exists_text made
  obtain ⟨lines', printed', prints', text'⟩ := exists_text made'
  refine ⟨_, _, text, text', ?_⟩
  constructor
  · intro same
    rw [Plain, ← withDepthsAll_singleton] at plain plain'
    have alike := unlines_inj (prints.no_feed plain) (prints'.no_feed plain') same
    rw [← List.append_nil lines, ← List.append_nil lines'] at alike
    obtain ⟨shown, -⟩ := prints.append_inj prints' (ended_nil 0) (ended_nil 0) alike
    exact (List.cons.inj shown).1
  · intro same
    have shown : shownAll [left] = shownAll [right] := by simp only [shownAll, same]
    rw [lines_eq, ← linesAll_shownAll, shown, linesAll_shownAll, ← lines_eq] at printed
    rw [Except.ok.inj (printed.symm.trans printed')]

/-- A leaf with a name that looks like the length of another type. -/
def bracketedLeaf (length : Int32) (id : Option Int32) : Primitive :=
  ⟨"(5) key;", some .required, .int64, length, id⟩

/-- A group with a name that looks like the end of a group. -/
def bracketedGroup (children : List Node) : Node :=
  .group ⟨"\x7d message \x7b", some .repeated, none⟩ children

/-- A schema with such a leaf inside such a group. -/
def bracketed (length : Int32) (id : Option Int32) : Node :=
  .group ⟨"", none, id⟩ [bracketedGroup [.primitive (bracketedLeaf length id)]]

/-- The texts of two schemas are equal when only ids and the length of an integer differ, and not
when a leaf lies beside a group in place of inside. -/
theorem text_eq_text_iff_bracketed :
    let beside : Node :=
      .group ⟨"", none, none⟩ [bracketedGroup [], .primitive (bracketedLeaf 0 none)]
    (bracketed 5 (some 3)).Plain ∧ (bracketed 0 none).Plain ∧ beside.Plain ∧
      (∃ text, (bracketed 5 (some 3)).text = .ok text ∧ (bracketed 0 none).text = .ok text) ∧
      ∃ text text', (bracketed 0 none).text = .ok text ∧ beside.text = .ok text' ∧
        text ≠ text' := by
  intro beside
  have made : ∀ entry ∈ (bracketed 5 (some 3)).withDepths 0, entry.2.Made := by decide
  have made' : ∀ entry ∈ (bracketed 0 none).withDepths 0, entry.2.Made := by decide
  have madeBeside : ∀ entry ∈ beside.withDepths 0, entry.2.Made := by decide
  have plain : (bracketed 5 (some 3)).Plain := by unfold Plain; decide
  have plain' : (bracketed 0 none).Plain := by unfold Plain; decide
  have plainBeside : beside.Plain := by unfold Plain; decide
  refine ⟨plain, plain', plainBeside, ?_, ?_⟩
  · obtain ⟨text, text', printed, printed', same⟩ :=
      text_eq_text_iff made made' plain plain'
    obtain rfl := same.mpr (by decide)
    exact ⟨text, printed, printed'⟩
  · obtain ⟨text, text', printed, printed', same⟩ :=
      text_eq_text_iff made' madeBeside plain' plainBeside
    exact ⟨text, text', printed, printed', mt same.mp (by decide)⟩

end Node

end ParquetFooter
