import ParquetFooter.Proofs.Wire.Layout

/-! # Stepping over what is written

Reading a record goes by the ids of its fields and does not look at the types in the headers, so
reading a record back says nothing about these types. Stepping over a value goes by the types alone.
It ends where the value ends only if every type that the writer announces, in a field header or in
front of a list, is that of the bytes behind it. This is a law of codecs (`Codec.Announced`): it
holds of the plain codecs, and passes from elements to lists and from fields to records.
-/

namespace ParquetFooter.Wire

variable {α ρ : Type}

/-- The types of a codec announce what it writes. A value is stepped over by the type of a field, as
long as it may nest `depth` levels deep, and an element of a list is stepped over like a field. -/
structure Codec.Announced (codec : Codec α) (depth : Nat) : Prop where
  element : ∀ value, skipElement value codec.element = value codec.wire
  field : ∀ {levels}, depth ≤ levels → ∀ {value}, codec.fits value →
    Reader.Reads (skipWithin levels codec.wire) (codec.encode value) ()

/-- An integer is stepped over like any number. -/
theorem skip_encodeInt (value : Int64) : Reader.Reads Vlq.skip (encodeInt value) () :=
  Vlq.skip_terminated (Vlq.terminated_encode _)

/-- Items are walked over when the payload of each is stepped over by its type. -/
theorem walk_skipWithin {levels : Nat} {items : List Item}
    (each : ∀ item ∈ items, Reader.Reads (skipWithin levels item.type) item.payload ()) :
    Walk (fun _ header => skipWithin levels header.type) () items () := by
  induction items with
  | nil => exact .done
  | cons item items ih =>
      obtain ⟨head, others⟩ := List.forall_mem_cons.mp each
      exact .field head (ih others)

namespace Codec

/-- What may nest so deep may nest deeper. -/
theorem Announced.mono {codec : Codec α} {depth deeper : Nat} (announced : codec.Announced depth)
    (le : depth ≤ deeper) : codec.Announced deeper where
  element := announced.element
  field enough := announced.field (Nat.le_trans le enough)

/-- Integers of 32 bits announce themselves. -/
theorem int32_announced : int32.Announced 1 where
  element _ := rfl
  field := by
    intro levels enough value _
    cases levels with
    | zero => exact absurd enough (Nat.not_succ_le_zero 0)
    | succ levels => exact skip_encodeInt value.toInt64

/-- Integers of 64 bits announce themselves. -/
theorem int64_announced : int64.Announced 1 where
  element _ := rfl
  field := by
    intro levels enough value _
    cases levels with
    | zero => exact absurd enough (Nat.not_succ_le_zero 0)
    | succ levels => exact skip_encodeInt value

/-- Byte strings announce themselves. -/
theorem bytes_announced : bytes.Announced 1 where
  element _ := rfl
  field := by
    intro levels enough value bound
    cases levels with
    | zero => exact absurd enough (Nat.not_succ_le_zero 0)
    | succ levels => exact (readBytes_encode bound).map fun _ => ()

/-- A text is written as its bytes. -/
theorem text_announced : text.Announced 1 where
  element _ := rfl
  field enough _ bound := bytes_announced.field enough bound

/-- A value of an enumeration is written as its code. -/
theorem enumeration_announced (α : Type) [Enumeration α] : (enumeration α).Announced 1 where
  element _ := rfl
  field enough _ _ := int32_announced.field enough trivial

/-- The elements of a list lie one level below it. -/
theorem list_announced {codec : Codec α} {depth : Nat} (announced : codec.Announced depth) :
    (list codec).Announced (depth + 1) where
  element _ := rfl
  field := by
    rintro levels enough values ⟨short, each⟩
    cases levels with
    | zero => exact absurd enough (Nat.not_succ_le_zero depth)
    | succ levels =>
        refine (ListHeader.read_encode codec.element short).bind (Reader.Reads.skipTimes ?_)
        intro value member
        rw [announced.element]
        exact announced.field (Nat.le_of_succ_le_succ enough) (each value member)

end Codec

/-- The fields of a record lie one level below it. Their headers are read back, as ids rise. -/
theorem Layout.Lawful.codec_announced {layout : Layout ρ} (lawful : layout.Lawful) {depth : Nat}
    (announced : ∀ field ∈ layout.fields, field.codec.Announced depth) :
    layout.codec.Announced (depth + 1) where
  element _ := rfl
  field := by
    intro levels enough record fits
    cases levels with
    | zero => exact absurd enough (Nat.not_succ_le_zero depth)
    | succ levels =>
        change Reader.Reads _ (encodeFields (layout.draft record) layout.fields 0) ()
        rw [encodeFields_eq]
        apply foldFields_encodeItems (walk_skipWithin ?_)
        · exact legible_items (layout.draft record) lawful.codecs lawful.rising
        · intro item member
          obtain ⟨field, known, present⟩ := List.mem_filterMap.mp member
          obtain ⟨value, held, rfl⟩ := Option.map_eq_some_iff.mp present
          exact (announced field known).field (Nat.le_of_succ_le_succ enough)
            (fits field known value held)

end ParquetFooter.Wire
