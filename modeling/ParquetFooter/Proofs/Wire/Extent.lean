import ParquetFooter.Proofs.Wire.Codec
import ParquetFooter.Proofs.Wire.Value

/-! # Stepping over values takes all of them

Stepping over a value takes its encoding, whichever it is, or stops at a defect in it. What it stops
at can be told from the value alone and the levels that are left (`Value.obstacle?`), so a reader
that knows none of a record's fields still finds the end of the record.
-/

namespace ParquetFooter.Wire

namespace Value

/-- What stepping over an element of a list stops at; `value` says so of a value of a field. -/
def elementObstacle? (value : Value → Option Defect) (type : ElementType) (element : Value) :
    Option Defect :=
  match type with
  | .bool => none
  | .set | .map => some (.unskippableElement type)
  | _ => value element

/-- What stepping over a value that may nest `levels` deep stops at, if it comes to something. -/
def obstacle? : Nat → Value → Option Defect
  | 0, value => some (.nestedValue value.wireType)
  | levels + 1, value =>
    match value with
    | struct fields => fields.findSome? fun field => obstacle? levels field.2
    | list type elements | set type elements =>
      elements.findSome? (elementObstacle? (obstacle? levels) type)
    | map _ => some (.unskippable .map)
    | _ => none

end Value

/-- The reader steps over the bytes, whatever follows them, or stops at a defect in them. -/
def Traverses (reader : Reader Unit) (bytes : Bytes) : Option Defect → Prop
  | none => Reader.Reads reader bytes ()
  | some defect => ∀ rest, reader (bytes ++ rest) = .error (.defect defect)

namespace Traverses

/-- A header is read first. -/
theorem behind {α : Type} {reader : Reader α} {next : α → Reader Unit} {front back : Bytes}
    {value : α} {obstacle : Option Defect} (head : Reader.Reads reader front value)
    (tail : Traverses (next value) back obstacle) :
    Traverses (reader >>= next) (front ++ back) obstacle := by
  cases obstacle with
  | none => exact head.bind tail
  | some defect =>
      intro rest
      rw [List.append_assoc]
      exact Reader.bind_eq_error.mpr (.inr ⟨value, _, head _, tail rest⟩)

/-- Where there is something to stop at, the reader fails whatever follows. -/
theorem fails {reader : Reader Unit} {bytes : Bytes} {obstacle : Option Defect}
    (walks : Traverses reader bytes obstacle) (stops : obstacle ≠ none) (rest : Bytes) :
    ∃ defect, reader (bytes ++ rest) = .error (.defect defect) := by
  obtain ⟨defect, rfl⟩ := Option.ne_none_iff_exists'.mp stops
  exact ⟨defect, walks rest⟩

/-- Of two in a row the second counts only when the first stops at nothing. -/
theorem bind {reader : Reader Unit} {next : Unit → Reader Unit} {front back : Bytes}
    {first second : Option Defect} (head : Traverses reader front first)
    (tail : Traverses (next ()) back second) :
    Traverses (reader >>= next) (front ++ back) (first.or second) := by
  cases first with
  | none => exact behind head tail
  | some defect =>
      intro rest
      rw [List.append_assoc]
      exact Reader.bind_eq_error.mpr (.inl (head _))

end Traverses

/-- A truth value is read off any byte that tells it. -/
theorem readBool_of_truthByte {value : Bool} {byte : UInt8} (told : TruthByte value byte) :
    Reader.Reads readBool [byte] value := by
  cases told with
  | one | zero | two => exact fun _ => rfl

/-- An element that is no truth value is stepped over by the type of a field with it, unless it is a
set or a map. -/
theorem skipElement_elementType {value : Value} (notBool : value.elementType ≠ .bool)
    (reader : WireType → Reader Unit) {bytes : Bytes} {obstacle : Value → Option Defect}
    (field : Traverses (reader value.wireType) bytes (obstacle value)) :
    Traverses (skipElement reader value.elementType) bytes
      (Value.elementObstacle? obstacle value.elementType value) := by
  cases value with
  | bool value => exact absurd rfl notBool
  | set type elements => exact fun _ => rfl
  | map content => exact fun _ => rfl
  | _ => exact field

/-- What is found first is found in the first value or else in the others. -/
theorem findSome?_cons_eq_or {α β : Type} (found? : α → Option β) (first : α) (others : List α) :
    (first :: others).findSome? found? = (found? first).or (others.findSome? found?) := by
  rw [← List.singleton_append, List.findSome?_append, List.findSome?_singleton]

variable {reader : WireType → Reader Unit} {obstacle : Value → Option Defect}

/-- Elements are stepped over one by one, up to the first that stops it. -/
theorem EncodesElements.traverses
    (each : ∀ {value bytes}, Encodes value bytes →
      Traverses (reader value.wireType) bytes (obstacle value))
    {type : ElementType} {elements : List Value} {bytes : Bytes}
    (encodes : EncodesElements type elements bytes) :
    Traverses (Reader.skipTimes (skipElement reader type) elements.length) bytes
      (elements.findSome? (Value.elementObstacle? obstacle type)) := by
  induction elements generalizing bytes with
  | nil =>
      cases encodes
      exact fun _ => rfl
  | cons value elements ih =>
      rw [findSome?_cons_eq_or]
      cases encodes with
      | bool told beside =>
          exact .bind ((readBool_of_truthByte told).map fun _ => ()) (ih beside)
      | other notBool encodes beside =>
          exact .bind (skipElement_elementType notBool reader (each encodes)) (ih beside)

/-- Fields take more bytes than there are fields. -/
theorem EncodesFields.length_lt {last : Int16} {fields : List (Int16 × Value)} {bytes : Bytes}
    (encodes : EncodesFields last fields bytes) : fields.length < bytes.length := by
  induction fields generalizing last bytes with
  | nil =>
      cases encodes
      exact Nat.zero_lt_one
  | cons field fields ih =>
      cases encodes with
      | @field _ _ _ _ header payload others spells _ beside =>
          have positive : 0 < header.length := by
            cases spells with
            | step => exact Nat.zero_lt_one
            | full => exact Nat.succ_pos _
          have behind := ih beside
          rw [List.length_append, List.length_append, List.length_cons]
          omega

/-- Fields are stepped over one by one, with an entry of the clock for each of them and for the
stop. -/
theorem EncodesFields.traverses_for
    (each : ∀ {value bytes}, Encodes value bytes →
      Traverses (reader value.wireType) bytes (obstacle value))
    {last : Int16} {fields : List (Int16 × Value)} {bytes clock : Bytes}
    (encodes : EncodesFields last fields bytes) (enough : fields.length < clock.length) :
    Traverses (foldFieldsFor (fun _ header => reader header.type) clock last ()) bytes
      (fields.findSome? fun field => obstacle field.2) := by
  induction fields generalizing last bytes clock with
  | nil =>
      cases encodes
      cases clock with
      | nil => exact absurd enough (Nat.lt_irrefl 0)
      | cons tick clock => exact fun _ => rfl
  | cons field fields ih =>
      cases clock with
      | nil => exact absurd enough (Nat.not_lt_zero _)
      | cons tick clock =>
          cases encodes with
          | @field _ id value _ header payload others spells encodes beside =>
              rw [findSome?_cons_eq_or]
              refine .behind (spells.reads value.wireType_ne_stop) ?_
              rw [if_neg value.wireType_ne_stop]
              exact .bind (each encodes) (ih beside (Nat.lt_of_succ_lt_succ enough))

/-- The fields of a record are walked up to the first one that cannot be stepped over. -/
theorem EncodesFields.traverses
    (each : ∀ {value bytes}, Encodes value bytes →
      Traverses (reader value.wireType) bytes (obstacle value))
    {fields : List (Int16 × Value)} {bytes : Bytes} (encodes : EncodesFields 0 fields bytes) :
    Traverses (foldFields (fun _ header => reader header.type) ()) bytes
      (fields.findSome? fun field => obstacle field.2) := by
  have enough (rest : Bytes) : fields.length < (bytes ++ rest).length := by
    rw [List.length_append]
    exact Nat.lt_of_lt_of_le encodes.length_lt (Nat.le_add_right _ _)
  have walks (rest : Bytes) := encodes.traverses_for each (enough rest)
  cases found : fields.findSome? fun field => obstacle field.2 with
  | none =>
      rw [found] at walks
      exact fun rest => walks rest rest
  | some defect =>
      rw [found] at walks
      exact fun rest => walks rest rest

/-- Stepping over a value takes all its bytes, or stops at its obstacle. The induction is on the
levels that are left; every type steps over parts one level down. -/
theorem Encodes.traverses (levels : Nat) {value : Value} {bytes : Bytes}
    (encodes : Encodes value bytes) :
    Traverses (skipWithin levels value.wireType) bytes (value.obstacle? levels) := by
  induction levels generalizing value bytes with
  | zero => exact fun _ => rfl
  | succ levels ih =>
      cases encodes with
      | @bool value => cases value <;> exact fun _ => rfl
      | byte => exact fun _ => rfl
      | int16 spells | int32 spells | int64 spells => exact Vlq.skip_terminated spells.terminated
      | double eight =>
          have whole := (Reader.Reads.take bytes).map fun _ => ()
          rw [eight] at whole
          exact whole
      | binary spells bound => exact (readBytes_of_spells spells bound).map fun _ => ()
      | struct encodes => exact encodes.traverses ih
      | list spells bound encodes | set spells bound encodes =>
          exact .behind (spells.reads bound) (encodes.traverses ih)
      | map => exact fun _ => rfl

namespace Value

/-- Where an element of a list is stepped over, its value is, or it is a truth value. -/
theorem elementObstacle?_eq_none {obstacle : Value → Option Defect} {type : ElementType}
    {element : Value} (typed : element.elementType = type)
    (free : elementObstacle? obstacle type element = none) :
    element.elementType = .bool ∨ obstacle element = none := by
  cases typed
  cases element with
  | bool value => exact .inl rfl
  | set type elements => cases free
  | map content => cases free
  | _ => exact .inr free

/-- The elements of a list are stepped over when each value is and their type is none that is
refused. -/
theorem elements_free {obstacle : Value → Option Defect} {type : ElementType}
    {elements : List Value} (fine : ¬ ((type = .set ∨ type = .map) ∧ elements ≠ []))
    (each : ∀ value ∈ elements, obstacle value = none) :
    elements.findSome? (elementObstacle? obstacle type) = none := by
  refine List.findSome?_eq_none_iff.mpr fun element member => ?_
  have some : elements ≠ [] := List.ne_nil_of_mem member
  cases type with
  | bool => rfl
  | set => exact absurd ⟨.inl rfl, some⟩ fine
  | map => exact absurd ⟨.inr rfl, some⟩ fine
  | _ => exact each element member

/-- Nothing stops at a value whose parts all lie less deep and are not refused. -/
theorem obstacle?_eq_none {levels : Nat} {value : Value}
    (parts : ∀ depth part, Inside part depth value → depth < levels ∧ ¬ part.Refused) :
    value.obstacle? levels = none := by
  induction levels generalizing value with
  | zero => exact absurd (parts 0 value .self).1 (Nat.lt_irrefl 0)
  | succ levels ih =>
      have below {value : Value}
          (up : ∀ {depth part}, Inside part depth value → Inside part (depth + 1) _) :
          value.obstacle? levels = none := ih fun depth part inside =>
        have ⟨shallow, fine⟩ := parts _ part (up inside)
        ⟨Nat.lt_of_succ_lt_succ shallow, fine⟩
      cases value with
      | struct fields =>
          exact List.findSome?_eq_none_iff.mpr fun field member => below (.field member)
      | list type elements =>
          exact elements_free (parts 0 _ .self).2 fun value member => below (.listElement member)
      | set type elements =>
          exact elements_free (parts 0 _ .self).2 fun value member => below (.setElement member)
      | map content => exact absurd trivial (parts 0 _ .self).2
      | _ => rfl

/-- Sets and maps as elements of a list are not stepped over. -/
theorem elements_obstacle?_ne_none {obstacle : Value → Option Defect} {type : ElementType}
    {elements : List Value} (refused : (type = .set ∨ type = .map) ∧ elements ≠ []) :
    elements.findSome? (elementObstacle? obstacle type) ≠ none := by
  obtain ⟨type_eq, some⟩ := refused
  obtain ⟨element, elements, rfl⟩ := List.exists_cons_of_ne_nil some
  rcases type_eq with rfl | rfl
  · exact Option.some_ne_none _
  · exact Option.some_ne_none _

/-- What is refused stops it at every level. -/
theorem Refused.obstacle?_ne_none {value : Value} (refused : value.Refused) (levels : Nat) :
    value.obstacle? levels ≠ none := by
  cases levels with
  | zero => exact Option.some_ne_none _
  | succ levels =>
      cases value with
      | list type elements | set type elements => exact elements_obstacle?_ne_none refused
      | map content => exact Option.some_ne_none _
      | _ => exact refused.elim

/-- A field stops it where nothing may lie below the record. -/
theorem field_obstacle?_ne_none {levels : Nat} (deep : levels ≤ 1) {field : Int16 × Value}
    {fields : List (Int16 × Value)} (member : field ∈ fields) :
    (struct fields).obstacle? levels ≠ none := by
  rcases Nat.le_one_iff_eq_zero_or_eq_one.mp deep with rfl | rfl
  · exact Option.some_ne_none _
  · intro free
    exact Option.some_ne_none _ (List.findSome?_eq_none_iff.mp free field member)

/-- Where nothing stops at a value, nothing stops at a part of it with the levels left there. Only
a truth value among the elements of a list needs no level of its own. -/
theorem Inside.free {part value : Value} {depth : Nat} (inside : Inside part depth value)
    {bytes : Bytes} (encodes : Encodes value bytes) {levels : Nat}
    (free : value.obstacle? levels = none) :
    part.elementType = .bool ∨ ∃ left, levels = left + depth ∧ part.obstacle? left = none := by
  have deeper {levels depth : Nat}
      (below : ∃ left, levels = left + depth ∧ part.obstacle? left = none) :
      ∃ left, levels + 1 = left + (depth + 1) ∧ part.obstacle? left = none :=
    below.imp fun left found => ⟨congrArg (· + 1) found.1, found.2⟩
  induction inside generalizing levels bytes with
  | self => exact .inr ⟨levels, rfl, free⟩
  | field member inside ih =>
      cases levels with
      | zero => cases free
      | succ levels =>
          cases encodes with
          | struct encodes =>
              obtain ⟨payload, encodes⟩ := encodes.part member
              have below := List.findSome?_eq_none_iff.mp free _ member
              exact (ih encodes below).imp_right deeper
  | listElement member inside ih | setElement member inside ih =>
      cases levels with
      | zero => cases free
      | succ levels =>
          cases encodes
          next spells bound encodes =>
              obtain ⟨typed, payload, encodes⟩ := encodes.part member
              have below := List.findSome?_eq_none_iff.mp free _ member
              rcases elementObstacle?_eq_none typed below with bool | below
              · exact .inl (inside.elementType_bool bool)
              · exact (ih encodes below).imp_right deeper

end Value

open Value in
/-- **Stepping over a value.** Behind the encoding of a value that nests at most 63 deep and holds
nothing refused, stepping over it stands at whatever follows. A refused part makes it fail, and so
does a field of a record that has 64 or more structs, lists and sets around it. -/
theorem skip_encoded {value : Value} {bytes : Bytes} (encodes : Encodes value bytes)
    (rest : Bytes) :
    ((∀ depth part, Inside part depth value → depth ≤ 63 ∧ ¬ part.Refused) →
      skip value.wireType (bytes ++ rest) = .ok ((), rest)) ∧
    (∀ depth part, Inside part depth value → part.Refused →
      ∃ defect, skip value.wireType (bytes ++ rest) = .error (.defect defect)) ∧
    ∀ depth fields field, Inside (.struct fields) depth value → field ∈ fields → 64 ≤ depth + 1 →
      ∃ defect, skip value.wireType (bytes ++ rest) = .error (.defect defect) := by
  have walks : Traverses (skip value.wireType) bytes (value.obstacle? 64) := encodes.traverses 64
  refine ⟨fun parts => ?_, fun depth part inside refused => ?_,
    fun depth fields field inside member deep => ?_⟩
  · have free : value.obstacle? 64 = none := obstacle?_eq_none fun depth part inside =>
      ⟨Nat.lt_succ_of_le (parts depth part inside).1, (parts depth part inside).2⟩
    rw [free] at walks
    exact walks rest
  · refine walks.fails (fun free => ?_) rest
    rcases inside.free encodes free with bool | ⟨left, -, free⟩
    · exact refused.not_bool bool
    · exact refused.obstacle?_ne_none left free
  · refine walks.fails (fun free => ?_) rest
    rcases inside.free encodes free with bool | ⟨left, levels, free⟩
    · cases bool
    · exact field_obstacle?_ne_none (by omega) member free

namespace Value

/-- So many structs inside each other. -/
def tower : Nat → Value
  | 0 => struct []
  | height + 1 => struct [(1, tower height)]

/-- Every tower has an encoding. -/
theorem encodes_tower (height : Nat) : ∃ bytes, Encodes (tower height) bytes := by
  induction height with
  | zero => exact ⟨_, .struct .stop⟩
  | succ height ih =>
      obtain ⟨bytes, encodes⟩ := ih
      exact ⟨_, .struct (.field (.step (show (0 : UInt8) < 1 by decide) (by decide) rfl) encodes
        .stop)⟩

/-- The bottom of a tower lies as deep in it as there are levels above. -/
theorem inside_tower (height : Nat) : Inside (tower 1) height (tower (height + 1)) := by
  induction height with
  | zero => exact .self
  | succ height ih => exact .field List.mem_cons_self ih

end Value

open Value in
/-- A record with a list is stepped over; a map in a field and a tower that is too high are not. -/
theorem skip_encoded_sample :
    skip .struct ([0x11, 0x09, 0xA8, 0x00, 0x31, 1, 0, 2, 0x05, 0x04, 0x81, 0x00, 0x00] ++ [7]) =
      .ok ((), [7]) ∧
    (∃ defect, skip .struct ([0x1B, 0x00, 0x00] ++ []) = .error (.defect defect)) ∧
    ∃ bytes, Encodes (tower 64) bytes ∧
      ∃ defect, skip .struct (bytes ++ []) = .error (.defect defect) := by
  have padded : Vlq.Spells [0xA8, 0x00] 40 := ⟨by simp [Vlq.Terminated], rfl⟩
  have number : Vlq.Spells [0x81, 0x00] 1 := ⟨by simp [Vlq.Terminated], rfl⟩
  have back : FieldHeader.Spells (int32 (-1)).wireType 2 20 [0x05, 0x04] :=
    .full ⟨by simp [Vlq.Terminated], rfl⟩
  have flags : Encodes (.list .bool [.bool true, .bool false, .bool false]) [0x31, 1, 0, 2] :=
    .list (.short (show ElementType.bool.HasCode 1 from .inr ⟨rfl, rfl⟩) (by decide)) (by decide)
      (.bool .one (.bool .zero (.bool .two .nil)))
  have mixed : Encodes (.struct [(1, .bool true),
      (20, .list .bool [.bool true, .bool false, .bool false]), (2, .int32 (-1))])
      [0x11, 0x09, 0xA8, 0x00, 0x31, 1, 0, 2, 0x05, 0x04, 0x81, 0x00, 0x00] :=
    .struct (.field (.step (show (0 : UInt8) < 1 by decide) (by decide) rfl) .bool
      (.field (.full padded) flags (.field back (.int32 number) .stop)))
  refine ⟨(skip_encoded mixed [7]).1 fun depth part inside => ?_, ?_, ?_⟩
  · cases inside with
    | self => exact ⟨Nat.zero_le 63, id⟩
    | field member inside =>
        simp only [List.mem_cons, List.not_mem_nil, or_false, Prod.mk.injEq] at member
        rcases member with ⟨rfl, rfl⟩ | ⟨rfl, rfl⟩ | ⟨rfl, rfl⟩
        · cases inside with
          | self => exact ⟨by decide, id⟩
        · cases inside with
          | self => exact ⟨by decide, fun refused => by simp [Refused] at refused⟩
          | listElement member inside =>
              simp only [List.mem_cons, List.not_mem_nil, or_false] at member
              rcases member with rfl | rfl | rfl
              all_goals
                cases inside with
                | self => exact ⟨by decide, id⟩
        · cases inside with
          | self => exact ⟨by decide, id⟩
  · have encodes : Encodes (.struct [(1, .map [0x00])]) [0x1B, 0x00, 0x00] :=
      .struct (.field (.step (show (0 : UInt8) < 1 by decide) (by decide) rfl) .map .stop)
    exact (skip_encoded encodes []).2.1 1 (.map [0x00]) (.field List.mem_cons_self .self) trivial
  · obtain ⟨bytes, encodes⟩ := encodes_tower 64
    exact ⟨bytes, encodes, (skip_encoded encodes []).2.2 63 _ (1, tower 0) (inside_tower 63)
      List.mem_cons_self (Nat.le_refl 64)⟩

end ParquetFooter.Wire
