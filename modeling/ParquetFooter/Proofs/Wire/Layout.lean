import ParquetFooter.Proofs.Wire.Codec
import ParquetFooter.Proofs.Wire.Fields
import ParquetFooter.Wire.Layout

/-! # Lawful layouts

A layout is lawful when the fields of its drafts do not disturb one another, a draft is determined
by its fields, and a record corresponds to the draft that has all of its values. From that alone,
and from lawful codecs of the fields, the codec of the record is lawful: writing the fields that are
present and reading them into a blank draft gives the draft again.
-/

namespace ParquetFooter.Wire

variable {ρ δ : Type}

/-- The item that is written for a field, if the draft has a value of it. -/
def RecordField.item? (draft : δ) (field : RecordField δ) : Option Item :=
  (field.value? draft).map fun value =>
    ⟨field.codec.wire, field.id, field.codec.encode value⟩

/-- A draft with the value that another draft has of a field, if it has one. -/
def RecordField.copy (source : δ) (target : δ) (field : RecordField δ) : δ :=
  match field.value? source with
  | some value => field.put value target
  | none => target

/-- The fields of a draft are written as its items. -/
theorem encodeFields_eq (draft : δ) (fields : List (RecordField δ)) (last : Int16) :
    encodeFields draft fields last =
      encodeItems last (fields.filterMap (RecordField.item? draft)) := by
  induction fields generalizing last with
  | nil => rfl
  | cons field fields ih =>
      rw [encodeFields, List.filterMap_cons, RecordField.item?]
      cases field.value? draft with
      | none => exact ih last
      | some value =>
          simp only [Option.map_some, encodeItems, Codec.encodeField, ih field.id]

/-- A required value is there when it was set. -/
theorem required_eq_ok {α : Type} {name : String} {value? : Option α} {value : α} :
    required name value? = .ok value ↔ value? = some value := by
  cases value? with
  | none => exact ⟨nofun, nofun⟩
  | some found => exact ⟨fun same => congrArg some (Except.ok.inj same),
      fun same => congrArg Except.ok (Option.some.inj same)⟩

/-- The outcome of asking for required fields in order: the fault that names the first one that is
missing, or a record. -/
inductive Concludes (missing : Int16 → Prop) : List (Int16 × String) → Except Fault ρ → Prop
  | whole {record : ρ} : Concludes missing [] (.ok record)
  | lacking {id : Int16} {name : String} {others : List (Int16 × String)} : missing id →
      Concludes missing ((id, name) :: others) (.error (.defect (.missingField name)))
  | present {id : Int16} {name : String} {others : List (Int16 × String)}
      {outcome : Except Fault ρ} : ¬ missing id → Concludes missing others outcome →
      Concludes missing ((id, name) :: others) outcome

/-- A required field that is asked for first is missing, or the others decide. -/
theorem Concludes.required {α : Type} {missing : Int16 → Prop} {id : Int16} {name : String}
    {others : List (Int16 × String)} {value? : Option α} {next : α → Except Fault ρ}
    (same : missing id ↔ value? = none)
    (tail : ∀ value, value? = some value → Concludes missing others (next value)) :
    Concludes missing ((id, name) :: others) (Wire.required name value? >>= next) := by
  cases value? with
  | none => exact .lacking (same.mpr rfl)
  | some value => exact .present (fun lacking => nomatch same.mp lacking) (tail value rfl)

/-- A missing field is a fault of the content. -/
theorem Concludes.content {missing : Int16 → Prop} {required : List (Int16 × String)}
    {outcome : Except Fault ρ} (concludes : Concludes missing required outcome) {fault : Fault}
    (refused : outcome = .error fault) : fault.OfContent := by
  induction concludes with
  | whole => exact nomatch refused
  | lacking => exact Except.error.inj refused ▸ trivial
  | present _ _ ih => exact ih refused

/-- A required field that is asked for first is there when anything comes of it. -/
theorem required_bind_eq_ok {α β : Type} {name : String} {value? : Option α}
    {next : α → Except Fault β} {result : β} :
    (required name value? >>= next) = .ok result ↔
      ∃ value, value? = some value ∧ next value = .ok result := by
  rw [Except.bind_eq_ok]
  exact exists_congr fun value => and_congr_left fun _ => required_eq_ok

namespace Layout

/-- A draft lacks the value of a field in the table. -/
def Lacks (layout : Layout ρ) (draft : layout.Draft) (id : Int16) : Prop :=
  ∃ field ∈ layout.fields, field.id = id ∧ field.value? draft = none

/-- The fields of the table that a record needs are these, each with the name that it has in
faults. -/
structure Requires (layout : Layout ρ) (required : List (Int16 × String)) : Prop where
  known : ∀ entry ∈ required, ∃ field ∈ layout.fields, field.id = entry.1
  concludes : ∀ draft, Concludes (layout.Lacks draft) required (layout.finish draft)

/-- A record takes at least the bytes of each value in it. -/
theorem length_value_le (layout : Layout ρ) {record : ρ} {field : RecordField layout.Draft}
    (member : field ∈ layout.fields) {value : field.Value}
    (present : field.value? (layout.draft record) = some value) :
    (field.codec.encode value).length ≤ (layout.encode record).length := by
  have item : RecordField.item? (layout.draft record) field =
      some ⟨field.codec.wire, field.id, field.codec.encode value⟩ := by
    rw [RecordField.item?, present, Option.map_some]
  rw [encode, encodeFields_eq]
  exact length_payload_le (List.mem_filterMap.mpr ⟨field, member, item⟩) 0

/-- The laws of a layout. -/
structure Lawful (layout : Layout ρ) : Prop where
  /-- Ids are positive and rise through the table. -/
  rising : (0 :: layout.fields.map RecordField.id).Pairwise (· < ·)
  /-- The values of the fields are read back. -/
  codecs : ∀ field ∈ layout.fields, field.codec.Lawful
  /-- The blank draft has no values. -/
  blank : ∀ field ∈ layout.fields, field.value? layout.blank = none
  /-- A value that was put into a draft is found there. -/
  found : ∀ field ∈ layout.fields, ∀ value draft,
    field.value? (field.put value draft) = some value
  /-- The other values of a draft stay. -/
  kept : ∀ field ∈ layout.fields, ∀ other ∈ layout.fields, field.id ≠ other.id →
    ∀ value draft, field.value? (other.put value draft) = field.value? draft
  /-- Drafts with the same values are the same. -/
  determined : ∀ left right : layout.Draft,
    (∀ field ∈ layout.fields, field.value? left = field.value? right) → left = right
  /-- The draft of a record is complete. -/
  complete : ∀ record, layout.finish (layout.draft record) = .ok record
  /-- A complete draft is that of its record. -/
  draft_of_finish : ∀ {draft record}, layout.finish draft = .ok record →
    layout.draft record = draft
  /-- An incomplete draft is refused for its content. -/
  content : ∀ draft {fault}, layout.finish draft = .error fault → fault.OfContent

namespace Lawful

variable {layout : Layout ρ}

/-- No two fields of a table have the same id. -/
theorem nodup (lawful : layout.Lawful) :
    layout.fields.Pairwise fun field other => field.id ≠ other.id := by
  have rising := (List.pairwise_cons.mp lawful.rising).2
  rw [List.pairwise_map] at rising
  refine rising.imp fun {field other} before same => ?_
  rw [same] at before
  exact Int16.lt_irrefl before

/-- A field of the table is found by its id. -/
theorem field?_id (lawful : layout.Lawful) {field : RecordField layout.Draft}
    (member : field ∈ layout.fields) : layout.field? field.id = some field := by
  rw [field?]
  have nodup := lawful.nodup
  generalize layout.fields = fields at member nodup
  induction fields with
  | nil => exact nomatch member
  | cons head fields ih =>
      obtain ⟨apart, nodup⟩ := List.pairwise_cons.mp nodup
      rw [List.find?_cons]
      rcases List.mem_cons.mp member with rfl | member
      · rw [beq_self_eq_true]
      · rw [beq_false_of_ne (apart field member)]
        exact ih member nodup

/-- Fields of the table are told apart by their ids. -/
theorem eq_of_id_eq (lawful : layout.Lawful) {field other : RecordField layout.Draft}
    (member : field ∈ layout.fields) (otherMember : other ∈ layout.fields)
    (same : field.id = other.id) : field = other := by
  have found := lawful.field?_id member
  rw [same, lawful.field?_id otherMember] at found
  exact (Option.some.inj found).symm

/-- Fields with a header of their own are read by their codec. -/
theorem readField_eq (lawful : layout.Lawful) {field : RecordField layout.Draft}
    (member : field ∈ layout.fields) (draft : layout.Draft) (type : WireType) :
    layout.readField draft ⟨type, field.id⟩ = field.read draft := by
  rw [readField, lawful.field?_id member]

/-- Copying some fields leaves the others alone. -/
theorem value?_foldl_copy_other (lawful : layout.Lawful) {source target : layout.Draft}
    {fields : List (RecordField layout.Draft)} (subset : fields ⊆ layout.fields)
    {field : RecordField layout.Draft} (member : field ∈ layout.fields)
    (apart : ∀ other ∈ fields, field.id ≠ other.id) :
    field.value? (fields.foldl (RecordField.copy source) target) = field.value? target := by
  induction fields generalizing target with
  | nil => rfl
  | cons head fields ih =>
      obtain ⟨headMember, subset⟩ := List.cons_subset.mp subset
      obtain ⟨headApart, apart⟩ := List.forall_mem_cons.mp apart
      rw [List.foldl_cons, ih subset apart, RecordField.copy]
      cases head.value? source with
      | none => rfl
      | some value => exact lawful.kept field member head headMember headApart value target

/-- Copying some fields into a draft that lacks them gives it their values. -/
theorem value?_foldl_copy (lawful : layout.Lawful) {source target : layout.Draft}
    {fields : List (RecordField layout.Draft)} (subset : fields ⊆ layout.fields)
    (nodup : fields.Pairwise fun field other => field.id ≠ other.id)
    (lacking : ∀ field ∈ fields, field.value? target = none) :
    ∀ field ∈ fields, field.value? (fields.foldl (RecordField.copy source) target) =
      field.value? source := by
  induction fields generalizing target with
  | nil => exact List.forall_mem_nil _
  | cons head fields ih =>
      obtain ⟨headMember, subset⟩ := List.cons_subset.mp subset
      obtain ⟨apart, nodup⟩ := List.pairwise_cons.mp nodup
      obtain ⟨headLacking, lacking⟩ := List.forall_mem_cons.mp lacking
      refine List.forall_mem_cons.mpr ⟨?_, ih subset nodup ?_⟩
      · rw [List.foldl_cons, lawful.value?_foldl_copy_other subset headMember apart,
          RecordField.copy]
        cases present : head.value? source with
        | none => exact headLacking
        | some value => exact lawful.found head headMember value target
      · intro field member
        rw [RecordField.copy]
        cases head.value? source with
        | none => exact lacking field member
        | some value =>
            rw [lawful.kept field (subset member) head headMember (apart field member).symm]
            exact lacking field member

/-- A blank draft with all values of another draft is that draft. -/
theorem foldl_copy_blank (lawful : layout.Lawful) (source : layout.Draft) :
    layout.fields.foldl (RecordField.copy source) layout.blank = source :=
  lawful.determined _ _ (lawful.value?_foldl_copy (List.Subset.refl _) lawful.nodup lawful.blank)

/-- Reading the items of some fields copies these fields. -/
theorem walk_items (lawful : layout.Lawful) {source : layout.Draft}
    {fields : List (RecordField layout.Draft)} (subset : fields ⊆ layout.fields)
    (fits : ∀ field ∈ fields, ∀ value, field.value? source = some value →
      field.codec.fits value) (target : layout.Draft) :
    Walk layout.readField target (fields.filterMap (RecordField.item? source))
      (fields.foldl (RecordField.copy source) target) := by
  induction fields generalizing target with
  | nil => exact .done
  | cons field fields ih =>
      obtain ⟨member, subset⟩ := List.cons_subset.mp subset
      obtain ⟨fieldFits, fits⟩ := List.forall_mem_cons.mp fits
      rw [List.foldl_cons, List.filterMap_cons, RecordField.item?, RecordField.copy]
      cases present : field.value? source with
      | none => exact ih subset fits target
      | some value =>
          refine .field ?_ (ih subset fits (field.put value target))
          rw [lawful.readField_eq member]
          have read := (lawful.codecs field member).read_encode (fieldFits value present)
          exact read.map fun value => field.put value target

/-- Ids that rise do not wrap. -/
theorem legible_items (source : layout.Draft) {fields : List (RecordField layout.Draft)}
    (codecs : ∀ field ∈ fields, field.codec.Lawful) {last : Int16}
    (rising : (last :: fields.map RecordField.id).Pairwise (· < ·)) :
    Legible last (fields.filterMap (RecordField.item? source)) := by
  induction fields generalizing last with
  | nil => trivial
  | cons field fields ih =>
      obtain ⟨codec, codecs⟩ := List.forall_mem_cons.mp codecs
      obtain ⟨above, rising⟩ := List.pairwise_cons.mp rising
      obtain ⟨step, above⟩ := List.forall_mem_cons.mp above
      rw [List.filterMap_cons, RecordField.item?]
      cases field.value? source with
      | none => exact ih codecs (List.pairwise_cons.mpr ⟨above, (List.pairwise_cons.mp rising).2⟩)
      | some value =>
          refine ⟨⟨codec.wire_ne_stop, fun wraps => ?_⟩, ih codecs rising⟩
          exact Int16.lt_asymm step wraps.1

/-- A record within the bounds is read back. -/
theorem read_encode (lawful : layout.Lawful) {record : ρ} (fits : layout.fits record) :
    Reader.Reads layout.read (layout.encode record) record := by
  rw [encode, encodeFields_eq]
  have walk := lawful.walk_items (List.Subset.refl _) fits layout.blank
  rw [lawful.foldl_copy_blank] at walk
  have legible := legible_items (layout.draft record) lawful.codecs lawful.rising
  refine (foldFields_encodeItems walk legible).bind_nil ?_
  rw [lawful.complete]
  exact Reader.Reads.pure record

/-- The values of a draft that was read into are within the bounds. -/
theorem fits_readField (lawful : layout.Lawful) {draft next : layout.Draft} {header : FieldHeader}
    {input rest : Bytes}
    (fits : ∀ field ∈ layout.fields, ∀ value, field.value? draft = some value →
      field.codec.fits value)
    (run : layout.readField draft header input = .ok (next, rest)) :
    ∀ field ∈ layout.fields, ∀ value, field.value? next = some value →
      field.codec.fits value := by
  rw [readField] at run
  cases known : layout.field? header.id with
  | none =>
      simp only [known] at run
      obtain ⟨skipped, middle, _, run⟩ := Reader.bind_eq_ok.mp run
      obtain ⟨rfl, rfl⟩ := Prod.mk.inj (Except.ok.inj run)
      exact fits
  | some other =>
      simp only [known] at run
      have otherMember : other ∈ layout.fields := List.mem_of_find?_eq_some known
      obtain ⟨content, middle, read, run⟩ := Reader.bind_eq_ok.mp run
      obtain ⟨rfl, rfl⟩ := Prod.mk.inj (Except.ok.inj run)
      intro field member value present
      by_cases same : field.id = other.id
      · obtain rfl := lawful.eq_of_id_eq member otherMember same
        rw [lawful.found field member] at present
        rw [← Option.some.inj present]
        exact (lawful.codecs field member).fits_of_read read
      · rw [lawful.kept field member other otherMember same] at present
        exact fits field member value present

/-- A record that was read is within the bounds. -/
theorem fits_of_read (lawful : layout.Lawful) {input rest : Bytes} {record : ρ}
    (run : layout.read input = .ok (record, rest)) : layout.fits record := by
  obtain ⟨draft, middle, walked, run⟩ := Reader.bind_eq_ok.mp run
  cases finished : layout.finish draft with
  | error fault => simp only [finished, Reader.ofExcept, Reader.fail, reduceCtorEq] at run
  | ok whole =>
      rw [finished] at run
      obtain ⟨rfl, rfl⟩ := Prod.mk.inj (Except.ok.inj run)
      rw [fits, lawful.draft_of_finish finished]
      refine foldFields_invariant (fun fits stepped => lawful.fits_readField fits stepped) ?_ walked
      intro field member value present
      rw [lawful.blank field member] at present
      cases present

/-- Known fields are read by their codecs, the others are stepped over, and both stream. -/
theorem readField_streams (lawful : layout.Lawful) (draft : layout.Draft) (header : FieldHeader) :
    (layout.readField draft header).Streams := by
  rw [readField]
  cases known : layout.field? header.id with
  | none => exact (skip_streams header.type).map fun _ => draft
  | some field =>
      have member : field ∈ layout.fields := List.mem_of_find?_eq_some known
      exact (lawful.codecs field member).streams.map fun value => field.put value draft

/-- A record with a lawful table streams. -/
theorem read_streams (lawful : layout.Lawful) : layout.read.Streams :=
  (foldFields_streams lawful.readField_streams layout.blank).bind fun draft =>
    .ofExcept fun _ => lawful.content draft

/-- A record with a lawful table is read back. -/
theorem codec_lawful (lawful : layout.Lawful) : layout.codec.Lawful where
  wire_ne_stop := nofun
  read_encode fits := lawful.read_encode fits
  fits_of_read run := lawful.fits_of_read run
  streams := lawful.read_streams

end Lawful

end Layout

end ParquetFooter.Wire
