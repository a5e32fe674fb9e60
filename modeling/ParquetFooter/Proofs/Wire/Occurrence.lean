import ParquetFooter.Proofs.Wire.Layout
import Mathlib.Data.List.Basic
import Mathlib.Data.List.Induction

/-! # Fields in any order

Another writer may put the fields of a record in any order, write some of them more than once, and
add fields that the table of the record type does not list. Each of them is an `Occurrence`. The
reader keeps the value of the last occurrence of every field in the table and steps over the other
fields; when required fields do not occur, it names the first of them.
-/

namespace ParquetFooter.Wire

variable {ρ δ : Type}

/-- A field where it occurs in a record: a field of the table with a value, behind a header of some
type, or another field with the bytes behind its header. -/
inductive Occurrence (δ : Type) where
  | known (field : RecordField δ) (type : WireType) (value : field.Value)
  | unknown (type : WireType) (id : Int16) (payload : Bytes)

namespace Occurrence

/-- The id of a field that occurs. -/
def id : Occurrence δ → Int16
  | known field _ _ => field.id
  | unknown _ id _ => id

/-- The item that is written for a field. -/
def item : Occurrence δ → Item
  | known field type value => ⟨type, field.id, field.codec.encode value⟩
  | unknown type id payload => ⟨type, id, payload⟩

/-- The draft after an occurrence was read into it. -/
def store (draft : δ) : Occurrence δ → δ
  | known field _ value => field.put value draft
  | unknown _ _ _ => draft

end Occurrence

/-- The last occurrence of a field holds a value. -/
def HoldsLast (occurrences : List (Occurrence δ)) (field : RecordField δ) (value : field.Value) :
    Prop :=
  ∃ front type back, occurrences = front ++ .known field type value :: back ∧
    ∀ other ∈ back, other.id ≠ field.id

theorem not_holdsLast_nil (field : RecordField δ) (value : field.Value) :
    ¬ HoldsLast [] field value := by
  rintro ⟨front, type, back, same, -⟩
  exact absurd same.symm (List.append_ne_nil_of_right_ne_nil _ (List.cons_ne_nil _ _))

/-- The field that comes last of all holds the value, or it is another field. -/
theorem holdsLast_append_singleton {occurrences : List (Occurrence δ)} {last : Occurrence δ}
    {field : RecordField δ} {value : field.Value} :
    HoldsLast (occurrences ++ [last]) field value ↔
      (∃ type, last = .known field type value) ∨
        (last.id ≠ field.id ∧ HoldsLast occurrences field value) := by
  constructor
  · rintro ⟨front, type, back, split, others⟩
    rcases List.eq_nil_or_concat' back with rfl | ⟨back, final, rfl⟩
    · obtain ⟨-, equal⟩ := List.append_inj' split rfl
      exact .inl ⟨type, (List.cons.inj equal).1⟩
    · rw [← List.cons_append, ← List.append_assoc] at split
      obtain ⟨whole, equal⟩ := List.append_inj' split rfl
      rw [List.forall_mem_append, List.forall_mem_singleton, ← (List.cons.inj equal).1] at others
      exact .inr ⟨others.2, front, type, back, whole, others.1⟩
  · rintro (⟨type, rfl⟩ | ⟨other, front, type, back, rfl, others⟩)
    · exact ⟨occurrences, type, [], rfl, List.forall_mem_nil _⟩
    · refine ⟨front, type, back ++ [last], by simp, ?_⟩
      exact List.forall_mem_append.mpr ⟨others, List.forall_mem_singleton.mpr other⟩

/-- The name of the first required field whose id is not present. -/
def firstMissing? (required : List (Int16 × String)) (present : List Int16) : Option String :=
  (required.find? fun entry => entry.1 ∉ present).map Prod.snd

/-- The fault names the first required field that is not present, and else there is a record. -/
theorem Concludes.firstMissing? {missing : Int16 → Prop} {required : List (Int16 × String)}
    {outcome : Except Fault ρ} (concludes : Concludes missing required outcome)
    {present : List Int16} (same : ∀ entry ∈ required, missing entry.1 ↔ entry.1 ∉ present) :
    match Wire.firstMissing? required present with
    | some name => outcome = .error (.defect (.missingField name))
    | none => ∃ record, outcome = .ok record := by
  induction concludes with
  | whole => exact ⟨_, rfl⟩
  | lacking lacks =>
      have absent := (same _ List.mem_cons_self).mp lacks
      simp only [Wire.firstMissing?, absent, not_false_eq_true, decide_true, List.find?_cons_of_pos,
        Option.map_some]
  | present has _ ih =>
      have there := (not_congr (same _ List.mem_cons_self)).mp has
      have others := ih fun entry member => same entry (List.mem_cons_of_mem _ member)
      simpa only [Wire.firstMissing?, there, decide_false, Bool.false_eq_true, not_false_eq_true,
        List.find?_cons_of_neg] using others

namespace Layout

/-- What may occur in a record: a field of the table with a value within the bounds, and a field of
another id with bytes that are stepped over. -/
def Admits (layout : Layout ρ) : Occurrence layout.Draft → Prop
  | .known field _ value => field ∈ layout.fields ∧ field.codec.fits value
  | .unknown type id payload =>
    (∀ field ∈ layout.fields, field.id ≠ id) ∧ skip type payload = .ok ((), [])

/-- The fields may occur, and the header of each can be told from the id of the one before. -/
structure Writable (layout : Layout ρ) (occurrences : List (Occurrence layout.Draft)) : Prop where
  admitted : ∀ occurrence ∈ occurrences, layout.Admits occurrence
  legible : Legible 0 (occurrences.map Occurrence.item)

/-- The record of some fields is the one with the values of their last occurrences, and no byte
behind the stop is taken. When a required field does not occur, the first such field is named. -/
def TakesLast (layout : Layout ρ) (required : List (Int16 × String)) : Prop :=
  ∀ occurrences, layout.Writable occurrences → ∀ rest,
    match firstMissing? required (occurrences.map Occurrence.id) with
    | some name =>
      layout.read (encodeItems 0 (occurrences.map Occurrence.item) ++ rest) =
        .error (.defect (.missingField name))
    | none =>
      ∃ record, layout.read (encodeItems 0 (occurrences.map Occurrence.item) ++ rest) =
          .ok (record, rest) ∧
        ∀ field ∈ layout.fields, ∀ value,
          field.value? (layout.draft record) = some value ↔ HoldsLast occurrences field value

namespace Lawful

variable {layout : Layout ρ}

/-- A field that is not in the table is not found. -/
theorem field?_eq_none {id : Int16} (unknown : ∀ field ∈ layout.fields, field.id ≠ id) :
    layout.field? id = none := by
  apply List.find?_eq_none.mpr
  intro field member
  simpa only [beq_iff_eq] using unknown field member

/-- An admitted field is read off its item, and its value is put into the draft. -/
theorem readField_item (lawful : layout.Lawful) {occurrence : Occurrence layout.Draft}
    (admitted : layout.Admits occurrence) (draft : layout.Draft) :
    Reader.Reads (layout.readField draft ⟨occurrence.item.type, occurrence.item.id⟩)
      occurrence.item.payload (occurrence.store draft) := by
  cases occurrence with
  | known field type value =>
      obtain ⟨member, fits⟩ := admitted
      change Reader.Reads (layout.readField draft ⟨type, field.id⟩) (field.codec.encode value) _
      rw [lawful.readField_eq member]
      exact ((lawful.codecs field member).read_encode fits).map fun value => field.put value draft
  | unknown type id payload =>
      obtain ⟨unknown, skips⟩ := admitted
      change Reader.Reads (layout.readField draft ⟨type, id⟩) payload draft
      rw [readField, field?_eq_none unknown]
      exact ((skip_streams type).reads skips).map fun _ => draft

/-- Admitted fields are walked over, and each value is put into the draft in turn. -/
theorem walk_occurrences (lawful : layout.Lawful) {occurrences : List (Occurrence layout.Draft)}
    (admitted : ∀ occurrence ∈ occurrences, layout.Admits occurrence) (draft : layout.Draft) :
    Walk layout.readField draft (occurrences.map Occurrence.item)
      (occurrences.foldl Occurrence.store draft) := by
  induction occurrences generalizing draft with
  | nil => exact .done
  | cons occurrence occurrences ih =>
      rw [List.forall_mem_cons] at admitted
      exact .field (lawful.readField_item admitted.1 draft)
        (ih admitted.2 (occurrence.store draft))

/-- An admitted field with the id of one in the table is an occurrence of that. -/
theorem eq_known_of_id_eq (lawful : layout.Lawful) {field : RecordField layout.Draft}
    (member : field ∈ layout.fields) {occurrence : Occurrence layout.Draft}
    (admitted : layout.Admits occurrence) (same : occurrence.id = field.id) :
    ∃ type value, occurrence = .known field type value := by
  cases occurrence with
  | known other type value =>
      obtain rfl := lawful.eq_of_id_eq admitted.1 member same
      exact ⟨type, value, rfl⟩
  | unknown type id payload => exact absurd same.symm (admitted.1 field member)

/-- A field does not change what the draft has of another one. -/
theorem value?_store_of_ne (lawful : layout.Lawful) {field : RecordField layout.Draft}
    (member : field ∈ layout.fields) {occurrence : Occurrence layout.Draft}
    (admitted : layout.Admits occurrence) (other : occurrence.id ≠ field.id)
    (draft : layout.Draft) : field.value? (occurrence.store draft) = field.value? draft := by
  cases occurrence with
  | known stored type value =>
      exact lawful.kept field member stored admitted.1 (Ne.symm other) value draft
  | unknown => rfl

/-- After some occurrences a draft has the value of the last occurrence of a field. The last one of
all decides whether the field changes, so the induction is from the end. -/
theorem value?_foldl_store (lawful : layout.Lawful) {field : RecordField layout.Draft}
    (member : field ∈ layout.fields) {occurrences : List (Occurrence layout.Draft)}
    (admitted : ∀ occurrence ∈ occurrences, layout.Admits occurrence) (value : field.Value) :
    field.value? (occurrences.foldl Occurrence.store layout.blank) = some value ↔
      HoldsLast occurrences field value := by
  induction occurrences using List.reverseRecOn with
  | nil =>
      rw [List.foldl_nil, lawful.blank field member]
      exact ⟨nofun, fun holds => absurd holds (not_holdsLast_nil field value)⟩
  | append_singleton occurrences last ih =>
      rw [List.forall_mem_append, List.forall_mem_singleton] at admitted
      rw [List.foldl_append, List.foldl_cons, List.foldl_nil]
      by_cases same : last.id = field.id
      · obtain ⟨type, found, rfl⟩ := lawful.eq_known_of_id_eq member admitted.2 same
        rw [Occurrence.store, lawful.found field member, holdsLast_append_singleton]
        simp [Occurrence.id]
      · rw [lawful.value?_store_of_ne member admitted.2 same, ih admitted.1,
          holdsLast_append_singleton]
        refine ⟨fun holds => .inr ⟨same, holds⟩, ?_⟩
        rintro (⟨type, rfl⟩ | ⟨-, holds⟩)
        · exact absurd rfl same
        · exact holds

/-- A draft lacks the value of a field exactly when that does not occur. -/
theorem value?_foldl_store_eq_none (lawful : layout.Lawful) {field : RecordField layout.Draft}
    (member : field ∈ layout.fields) {occurrences : List (Occurrence layout.Draft)}
    (admitted : ∀ occurrence ∈ occurrences, layout.Admits occurrence) :
    field.value? (occurrences.foldl Occurrence.store layout.blank) = none ↔
      field.id ∉ occurrences.map Occurrence.id := by
  induction occurrences using List.reverseRecOn with
  | nil => simp only [List.foldl_nil, lawful.blank field member, List.map_nil, List.not_mem_nil,
      not_false_eq_true]
  | append_singleton occurrences last ih =>
      rw [List.forall_mem_append, List.forall_mem_singleton] at admitted
      rw [List.foldl_append, List.foldl_cons, List.foldl_nil, List.map_append, List.mem_append,
        List.map_singleton, List.mem_singleton]
      by_cases same : last.id = field.id
      · obtain ⟨type, found, rfl⟩ := lawful.eq_known_of_id_eq member admitted.2 same
        rw [Occurrence.store, lawful.found field member]
        exact ⟨nofun, fun absent => absurd (.inr rfl) absent⟩
      · rw [lawful.value?_store_of_ne member admitted.2 same, ih admitted.1, not_or]
        exact (and_iff_left (Ne.symm same)).symm

/-- What a draft lacks of the required fields are those that do not occur. -/
theorem lacks_foldl_store (lawful : layout.Lawful) {required : List (Int16 × String)}
    (requires : layout.Requires required) {occurrences : List (Occurrence layout.Draft)}
    (admitted : ∀ occurrence ∈ occurrences, layout.Admits occurrence) :
    ∀ entry ∈ required,
      layout.Lacks (occurrences.foldl Occurrence.store layout.blank) entry.1 ↔
        entry.1 ∉ occurrences.map Occurrence.id := by
  intro entry needed
  obtain ⟨field, member, same⟩ := requires.known entry needed
  rw [← same, ← lawful.value?_foldl_store_eq_none member admitted]
  constructor
  · rintro ⟨other, otherMember, equal, missing⟩
    obtain rfl := lawful.eq_of_id_eq otherMember member equal
    exact missing
  · exact fun missing => ⟨field, member, rfl, missing⟩

/-- Reading goes over all fields to the stop, and then the required ones decide. -/
theorem read_encodeItems (lawful : layout.Lawful) {occurrences : List (Occurrence layout.Draft)}
    (writable : layout.Writable occurrences) (rest : Bytes) :
    layout.read (encodeItems 0 (occurrences.map Occurrence.item) ++ rest) =
      Reader.ofExcept (layout.finish (occurrences.foldl Occurrence.store layout.blank)) rest := by
  have walk := lawful.walk_occurrences writable.admitted layout.blank
  rw [read, Reader.bind_apply, foldFields_encodeItems walk writable.legible rest]

/-- A record with a lawful table takes the last occurrence of every field. -/
theorem takesLast (lawful : layout.Lawful) {required : List (Int16 × String)}
    (requires : layout.Requires required) : layout.TakesLast required := by
  intro occurrences writable rest
  have asked := requires.concludes (occurrences.foldl Occurrence.store layout.blank)
  have concludes := asked.firstMissing? (lawful.lacks_foldl_store requires writable.admitted)
  rw [lawful.read_encodeItems writable rest]
  split
  next name missing =>
    rw [missing] at concludes
    rw [concludes]
    rfl
  next complete =>
    rw [complete] at concludes
    obtain ⟨record, finished⟩ := concludes
    refine ⟨record, by rw [finished]; rfl, fun field member value => ?_⟩
    rw [lawful.draft_of_finish finished]
    exact lawful.value?_foldl_store member writable.admitted value

end Lawful

end Layout

end ParquetFooter.Wire
