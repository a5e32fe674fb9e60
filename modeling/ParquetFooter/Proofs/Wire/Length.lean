import ParquetFooter.Proofs.Consumption
import ParquetFooter.Proofs.Wire.Layout
import Mathlib.Algebra.Ring.Nat

/-! # Shortest encodings

The reader accepts a value in more ways than one: numbers may have groups that carry no bits, wide
integers are cut off, headers may have a long form, and fields may come twice or be unknown. None of
these ways is shorter than what is written. A codec is `Shortest` when every reading of a value
takes at least the bytes that are written for it. The plain codecs of the record types are, and the
property passes from elements to lists and from fields to records, as long as the header of every
field that is written takes a single byte.
-/

namespace ParquetFooter

/-- A number that is known is the code of its value. -/
theorem Enumeration.code_of_ofCode {α : Type} [Enumeration α] {number : Int32} {value : α}
    (known : (ofCode number : Except Fault α) = .ok value) : code value = number := by
  rw [ofCode] at known
  split at known
  next found search =>
    rw [← Except.ok.inj known]
    have same := List.find?_some search
    exact eq_of_beq same
  next => cases known

/-- A text takes as many bytes as its letters do. -/
theorem Utf8.length_encode (text : String) : (encode text).length = text.utf8ByteSize := by
  simp [encode]

namespace Wire

namespace Vlq

/-- Every number takes a byte or more. -/
theorem length_encode_pos (number : Nat) : 0 < (encode number).length :=
  List.length_pos_iff.mpr (encode_ne_nil number)

/-- A larger number takes no fewer bytes. -/
theorem length_encode_mono {small large : Nat} (le : small ≤ large) :
    (encode small).length ≤ (encode large).length := by
  fun_induction encode small generalizing large with
  | case1 small short => exact length_encode_pos large
  | case2 small long ih =>
      have longer : encode large = (large % 128 + 128).toUInt8 :: encode (large / 128) := by
        rw [encode, if_neg (by omega)]
      rw [longer, List.length_cons, List.length_cons]
      exact Nat.succ_le_succ (ih (Nat.div_le_div_right le))

/-- Gathering gives a word that can be written in as many bytes as it took, counting those taken
before. From the tenth byte on any word can, so positions past the word do not matter. -/
theorem length_encode_le_of_gather {count : Nat} {shift word value : UInt64} {input rest : Bytes}
    (position : count < 9 → shift = UInt64.ofNat (7 * count)) (below : word.toNat < 2 ^ (7 * count))
    (run : gather shift word input = .ok (value, rest)) :
    (encode value.toNat).length + rest.length ≤ count + input.length := by
  induction input generalizing count shift word with
  | nil => exact nomatch run
  | cons byte others ih =>
      have added :
          (word ||| (byte &&& 0x7F).toUInt64 <<< shift).toNat < 2 ^ (7 * (count + 1)) := by
        by_cases inside : count < 9
        · obtain rfl := position inside
          have power : 2 ^ (7 * (count + 1)) = 2 ^ (7 * count) * 128 := Nat.pow_add 2 (7 * count) 7
          have group : 2 ^ (7 * count) * (byte.toNat % 128) ≤ 2 ^ (7 * count) * 127 :=
            Nat.mul_le_mul_left _ (by omega)
          rw [toNat_or_group (by omega) below]
          refine Nat.lt_of_le_of_lt (Nat.mod_le _ _) ?_
          omega
        · refine Nat.lt_of_lt_of_le (UInt64.toNat_lt _) (Nat.pow_le_pow_right (by decide) ?_)
          omega
      rw [gather] at run
      split at run
      next last =>
        obtain ⟨rfl, rfl⟩ := Prod.mk.inj (Except.ok.inj run)
        have short := length_encode_le (Nat.succ_pos count) added
        rw [List.length_cons]
        omega
      next inner =>
        have next : count + 1 < 9 → shift + 7 = UInt64.ofNat (7 * (count + 1)) := by
          intro inside
          rw [position (by omega)]
          exact (UInt64.ofNat_add (7 * count) 7).symm
        have behind := ih next added run
        rw [List.length_cons]
        omega

/-- A word takes no fewer bytes than its shortest encoding. -/
theorem read_takes : read.TakesAtLeast fun word => (encode word.toNat).length := by
  intro input value rest run
  have counted : (encode value.toNat).length + rest.length ≤ 0 + input.length :=
    length_encode_le_of_gather (fun _ => rfl) (by decide) run
  rwa [Nat.zero_add] at counted

end Vlq

/-- The word of an integer that is not negative has its value. -/
theorem toNat_toUInt64_of_nonneg {value : Int64} (nonneg : ¬ value < 0) :
    (value.toUInt64.toNat : Int) = value.toInt := by
  rw [Int64.not_lt] at nonneg
  rw [Int64.toNat_toUInt64_of_le nonneg]
  rw [Int64.le_iff_toInt_le, Int64.toInt_zero] at nonneg
  exact Int.toNat_of_nonneg nonneg

/-- An integer is folded onto twice its magnitude, or onto the odd number below. -/
theorem toNat_zigzag (value : Int64) :
    ((zigzag value).toNat : Int) =
      if value.toInt < 0 then -2 * value.toInt - 1 else 2 * value.toInt := by
  have sign : value < 0 ↔ value.toInt < 0 := by rw [Int64.lt_iff_toInt_lt, Int64.toInt_zero]
  rw [zigzag]
  by_cases negative : value < 0
  · have nonneg := not_complement_lt_zero negative
    have magnitude := toNat_toUInt64_of_nonneg nonneg
    have folded := toNat_fold nonneg (.inr rfl)
    have complement : (~~~value).toInt = -value.toInt - 1 := by
      have := value.le_toInt
      rw [Int64.toInt_not, Int.bmod_eq_of_le]
      all_goals rw [sign] at negative; omega
    simp only [negative, sign.mp negative, ↓reduceIte, Int64.xor_neg_one, folded]
    change ((2 * (~~~value).toUInt64.toNat + 1 : Nat) : Int) = _
    omega
  · have magnitude := toNat_toUInt64_of_nonneg negative
    have folded := toNat_fold negative (.inl rfl)
    simp only [negative, mt sign.mpr negative, ↓reduceIte, Int64.neg_zero, Int64.xor_zero, folded]
    change ((2 * value.toUInt64.toNat + 0 : Nat) : Int) = _
    omega

/-- Every word is folded from the integer that it stands for. -/
theorem zigzag_unzigzag (word : UInt64) : zigzag (unzigzag word) = word := by
  have bound := word.toNat_lt
  obtain ⟨value, folded⟩ : ∃ value, zigzag value = word := by
    refine ⟨.ofInt (if word.toNat % 2 = 0 then word.toNat / 2 else -(word.toNat / 2) - 1), ?_⟩
    rw [← UInt64.toNat_inj, ← Int.natCast_inj, toNat_zigzag, Int64.toInt_ofInt_of_le]
    all_goals split <;> omega
  rw [← folded, unzigzag_zigzag]

/-- Cutting an integer off to 32 bits does not make its word larger. -/
theorem toNat_zigzag_toInt32_le (value : Int64) :
    (zigzag value.toInt32.toInt64).toNat ≤ (zigzag value).toNat := by
  have cut := toNat_zigzag value.toInt32.toInt64
  have whole := toNat_zigzag value
  rw [Int32.toInt_toInt64, Int64.toInt_toInt32, Int.bmod_def] at cut
  omega

/-- An integer of 64 bits takes no fewer bytes than are written for it. -/
theorem readInt64_takes : readInt64.TakesAtLeast fun value => (encodeInt value).length := by
  apply Vlq.read_takes.map
  intro word
  exact Nat.le_of_eq (by rw [encodeInt, zigzag_unzigzag])

/-- An integer that is cut off to 32 bits takes no fewer bytes than are written for it. -/
theorem readInt32_takes :
    readInt32.TakesAtLeast fun value => (encodeInt value.toInt64).length := by
  apply readInt64_takes.map
  intro value
  exact Vlq.length_encode_mono (toNat_zigzag_toInt32_le value)

/-- A byte string takes its bytes and those of its length. -/
theorem readBytes_takes :
    readBytes.TakesAtLeast fun value => (Vlq.encode value.length ++ value).length := by
  apply Vlq.read_takes.bind
  intro word middle value rest run
  obtain ⟨rfl, counted⟩ := Reader.take_eq_ok.mp run
  rw [counted, List.length_append, List.length_append, counted]
  omega

namespace ListHeader

/-- The number of bytes behind the first one. -/
def sizeLength (size : Nat) : Nat := if size < 15 then 0 else (Vlq.encode size).length

/-- The header of a list takes one byte, and more for a size that is not short. -/
theorem length_encode (type : ElementType) (size : Nat) :
    (encode type size).length = sizeLength size + 1 := by
  rw [encode, sizeLength]
  split <;> rfl

/-- A size that was cut off to 32 bits is no larger than the word that was read. -/
theorem toNat_cut_le (word : UInt64) : word.toUInt32.toInt32.toInt.toNat ≤ word.toNat := by
  have cut := toInt_cut word.toNat
  rw [← cut_ofNat, UInt64.ofNat_toNat, Int.bmod_def] at cut
  omega

/-- The upper half of a byte has four bits. -/
theorem upperHalf_lt (byte : UInt8) : (byte >>> 4).toNat < 16 := by
  have := byte.toNat_lt
  rw [UInt8.toNat_shiftRight, Nat.shiftRight_eq_div_pow]
  change byte.toNat / 2 ^ (4 % 8) < 16
  rw [Nat.mod_eq_of_lt (show 4 < 8 by decide)]
  omega

/-- The size of a list takes no fewer bytes than are written for it. -/
theorem readSize_takes {nibble : UInt8} (small : nibble.toNat < 16) :
    (readSize nibble).TakesAtLeast fun size => sizeLength size.toInt.toNat := by
  rw [readSize]
  split
  next =>
    apply Vlq.read_takes.map
    intro word
    rw [sizeLength]
    split
    · exact Nat.zero_le _
    · exact Vlq.length_encode_mono (toNat_cut_le word)
  next direct =>
    intro input size rest run
    obtain ⟨rfl, rfl⟩ := Prod.mk.inj (Except.ok.inj run)
    have fewer : nibble.toNat < 15 := by
      rw [← UInt8.toNat_inj] at direct
      change ¬ nibble.toNat = 15 at direct
      omega
    change sizeLength (Int32.ofNat nibble.toNat).toInt.toNat + input.length ≤ input.length
    rw [Int32.toInt_ofNat_of_lt (by omega), Int.toNat_natCast, sizeLength, if_pos fewer]
    omega

/-- The header of a list takes at least the bytes that are written for its size, whatever the type
of the elements. -/
theorem read_takes (type : ElementType) :
    read.TakesAtLeast fun header => (encode type header.size).length := by
  apply Reader.TakesAtLeast.byte.bind
  intro byte middle header rest run
  cases known : ElementType.ofCode? (byte &&& 0x0F) with
  | none => simp only [known, Reader.fail, reduceCtorEq] at run
  | some found =>
      simp only [known] at run
      obtain ⟨size, behind, sized, run⟩ := Reader.bind_eq_ok.mp run
      have taken := readSize_takes (upperHalf_lt byte) sized
      split at run
      next => cases run
      next =>
        obtain ⟨rfl, rfl⟩ := Prod.mk.inj (Except.ok.inj run)
        rw [length_encode]
        dsimp only at taken ⊢
        omega

end ListHeader

namespace FieldHeader

/-- A small id behind a smaller one shares a byte with the type. -/
theorem length_encode_of_lt (type : WireType) {id last : Int16} (nonneg : 0 ≤ last)
    (up : last < id) (low : id ≤ 15) : (encode type id last).length = 1 := by
  have step : 0 < id - last ∧ id - last ≤ 15 := by
    rw [Int16.le_iff_toInt_le] at nonneg low
    rw [Int16.lt_iff_toInt_lt] at up
    change 0 ≤ last.toInt at nonneg
    change id.toInt ≤ 15 at low
    rw [short_iff, Int.bmod_eq_of_le]
    all_goals omega
  rw [encode, if_pos step]
  rfl

/-- The header of a field takes a byte or more. -/
theorem read_takes (last : Int16) : (read last).TakesAtLeast fun _ => 1 := by
  intro input header rest run
  obtain ⟨taken, rfl, reads⟩ := (read_streams last).ok run
  have positive := List.length_pos_iff.mpr (ne_nil_of_reads reads)
  rw [List.length_append]
  exact Nat.add_le_add_right positive _

end FieldHeader

variable {σ α ρ δ : Type}

/-- A walk takes a byte for its stop, and what every step adds to the cost of a state: a step may
add as many bytes as it takes, and one more for the header. -/
theorem foldFieldsFor_takes {step : σ → FieldHeader → Reader σ} {cost : σ → Nat}
    (each : ∀ {state header input next rest}, step state header input = .ok (next, rest) →
      cost next + rest.length ≤ cost state + 1 + input.length)
    {clock input rest : Bytes} {last : Int16} {start final : σ}
    (run : foldFieldsFor step clock last start input = .ok (final, rest)) :
    cost final + 1 + rest.length ≤ cost start + input.length := by
  induction clock generalizing last start input with
  | nil => exact nomatch run
  | cons tick clock ih =>
      obtain ⟨header, middle, headed, continued⟩ := Reader.bind_eq_ok.mp run
      have byte : 1 + middle.length ≤ input.length := FieldHeader.read_takes last headed
      split at continued
      next stop =>
        obtain ⟨rfl, rfl⟩ := Prod.mk.inj (Except.ok.inj continued)
        omega
      next field =>
        obtain ⟨next, behind, stepped, others⟩ := Reader.bind_eq_ok.mp continued
        have taken := each stepped
        have behind := ih others
        omega

/-- The elements of a list, with the content of each. -/
def listed (content : α → Nat) (values : List α) : Nat := values.length + (values.map content).sum

/-- The content of a value that may be missing. -/
def optional (content : α → Nat) (value? : Option α) : Nat := value?.elim 0 content

namespace Codec

/-- No reading of a value takes fewer bytes than are written for it. -/
def Shortest (codec : Codec α) : Prop :=
  codec.read.TakesAtLeast fun value => (codec.encode value).length

/-- What is written for an integer of 32 bits is shortest. -/
theorem int32_shortest : int32.Shortest := readInt32_takes

theorem int64_shortest : int64.Shortest := readInt64_takes

/-- What is written for a byte string is shortest. -/
theorem bytes_shortest : bytes.Shortest := readBytes_takes

/-- What is written for a text is shortest. -/
theorem text_shortest : text.Shortest := by
  apply readBytes_takes.bind
  intro read middle value rest run
  cases decoded : Utf8.decode read with
  | error fault => simp only [decoded, Reader.fail, reduceCtorEq] at run
  | ok found =>
      simp only [decoded] at run
      obtain ⟨rfl, rfl⟩ := Prod.mk.inj (Except.ok.inj run)
      rw [← Utf8.encode_of_decode decoded]
      exact Nat.le_refl _

/-- The code of a value is the one that it was read from. -/
theorem enumeration_shortest (α : Type) [Enumeration α] : (enumeration α).Shortest := by
  apply readInt32_takes.bind
  intro number middle value rest run
  cases known : (Enumeration.ofCode number : Except Fault α) with
  | error fault => simp only [known, Reader.ofExcept, Reader.fail, reduceCtorEq] at run
  | ok found =>
      rw [known] at run
      obtain ⟨rfl, rfl⟩ := Prod.mk.inj (Except.ok.inj run)
      rw [← Enumeration.code_of_ofCode known]
      exact Nat.le_refl _

/-- What is written for a list is shortest if that is so for its elements. -/
theorem list_shortest {codec : Codec α} (shortest : codec.Shortest) :
    (list codec).Shortest := by
  apply (ListHeader.read_takes codec.element).bind
  intro header middle values rest run
  have taken := shortest.times header.size run
  change (ListHeader.encode _ _ ++ values.flatMap codec.encode).length + _ ≤ _
  rw [List.length_append, List.length_flatMap, Reader.length_of_times run]
  dsimp only at taken
  omega

/-- Every value takes more bytes than its content counts. -/
def Exceeds (codec : Codec α) (content : α → Nat) : Prop :=
  ∀ value, content value < (codec.encode value).length

/-- A byte string takes more bytes than it has. -/
theorem bytes_exceeds : bytes.Exceeds List.length := by
  intro value
  have size := Vlq.length_encode_pos value.length
  change value.length < (Vlq.encode value.length ++ value).length
  rw [List.length_append]
  omega

/-- A text takes more bytes than its letters do. -/
theorem text_exceeds : text.Exceeds String.utf8ByteSize := by
  intro value
  rw [← Utf8.length_encode]
  exact bytes_exceeds (Utf8.encode value)

/-- A value of an enumeration takes a byte or more. -/
theorem enumeration_exceeds (α : Type) [Enumeration α] : (enumeration α).Exceeds fun _ => 0 :=
  fun value => Vlq.length_encode_pos (zigzag (Enumeration.code value).toInt64).toNat

/-- Each element of a list has a byte to spare, which makes up for counting it. -/
theorem list_exceeds {codec : Codec α} {content : α → Nat} (exceeds : codec.Exceeds content) :
    (list codec).Exceeds (listed content) := by
  intro values
  have spare : listed content values ≤ (values.flatMap codec.encode).length := by
    unfold listed
    induction values with
    | nil => exact Nat.le_refl 0
    | cons value values ih =>
        have first := exceeds value
        simp only [List.map_cons, List.sum_cons, List.flatMap_cons, List.length_append,
          List.length_cons]
        omega
  change listed content values <
    (ListHeader.encode codec.element values.length ++ values.flatMap codec.encode).length
  rw [List.length_append, ListHeader.length_encode]
  omega

/-- The field of a value that may be missing. -/
theorem Exceeds.optional_le {codec : Codec α} {content : α → Nat} (exceeds : codec.Exceeds content)
    (value? : Option α) :
    optional content value? ≤ value?.elim 0 fun value => (codec.encode value).length + 1 := by
  cases value? with
  | none => exact Nat.le_refl 0
  | some value => exact Nat.le_succ_of_le (Nat.le_of_lt (exceeds value))

end Codec

/-- The bytes of the value that a draft has of a field, and one for its header. -/
def RecordField.cost (draft : δ) (field : RecordField δ) : Nat :=
  (field.value? draft).elim 0 fun value => (field.codec.encode value).length + 1

/-- Headers of a byte each, the values and the stop are all that is written. -/
theorem length_encodeFields (draft : δ) {fields : List (RecordField δ)} {last : Int16}
    (nonneg : 0 ≤ last) (rising : (last :: fields.map RecordField.id).Pairwise (· < ·))
    (low : ∀ field ∈ fields, field.id ≤ 15) :
    (encodeFields draft fields last).length = (fields.map (RecordField.cost draft)).sum + 1 := by
  induction fields generalizing last with
  | nil => rfl
  | cons field fields ih =>
      obtain ⟨above, rising⟩ := List.pairwise_cons.mp rising
      obtain ⟨up, above⟩ := List.forall_mem_cons.mp above
      obtain ⟨small, low⟩ := List.forall_mem_cons.mp low
      rw [encodeFields, List.map_cons, List.sum_cons, RecordField.cost]
      cases field.value? draft with
      | none =>
          have others := List.pairwise_cons.mpr ⟨above, (List.pairwise_cons.mp rising).2⟩
          rw [Option.elim_none, Nat.zero_add]
          exact ih nonneg others low
      | some value =>
          have header := FieldHeader.length_encode_of_lt field.codec.wire nonneg up small
          have others := ih (Int16.le_trans nonneg (Int16.le_of_lt up)) rising low
          simp only [Option.elim_some, Codec.encodeField, List.length_append, header, others]
          omega

namespace Layout

variable {layout : Layout ρ}

/-- The bytes of the values that a draft has, with their headers. -/
def cost (layout : Layout ρ) (draft : layout.Draft) : Nat :=
  (layout.fields.map (RecordField.cost draft)).sum

namespace Lawful

/-- A record takes the bytes of its fields, and one for the stop. -/
theorem length_encode (lawful : layout.Lawful) (low : ∀ field ∈ layout.fields, field.id ≤ 15)
    (record : ρ) : (layout.encode record).length = layout.cost (layout.draft record) + 1 :=
  length_encodeFields (layout.draft record) (Int16.le_refl 0) lawful.rising low

/-- A blank draft has no fields to write. -/
theorem cost_blank (lawful : layout.Lawful) : layout.cost layout.blank = 0 := by
  have free : layout.fields.map (RecordField.cost layout.blank) = layout.fields.map fun _ => 0 := by
    apply List.map_congr_left
    intro field known
    rw [RecordField.cost, lawful.blank field known, Option.elim_none]
  rw [cost, free, List.map_const', List.sum_replicate_nat, Nat.mul_zero]

/-- A value that is put into a draft adds to its cost at most what the value takes by itself. The
value that it replaces does not count any more. -/
theorem cost_put_le (lawful : layout.Lawful) {field : RecordField layout.Draft}
    (member : field ∈ layout.fields) (value : field.Value) (draft : layout.Draft) :
    layout.cost (field.put value draft) ≤
      layout.cost draft + ((field.codec.encode value).length + 1) := by
  have own : RecordField.cost (field.put value draft) field =
      (field.codec.encode value).length + 1 := by
    rw [RecordField.cost, lawful.found field member, Option.elim_some]
  have kept : ∀ other ∈ layout.fields, other.id ≠ field.id →
      RecordField.cost (field.put value draft) other = RecordField.cost draft other := by
    intro other known apart
    rw [RecordField.cost, lawful.kept other known field member apart, RecordField.cost]
  have nodup := lawful.nodup
  have known : ∀ other ∈ layout.fields, other.id = field.id → other = field :=
    fun other known same => lawful.eq_of_id_eq known member same
  unfold cost
  -- From here on only the costs and the ids of the fields count.
  generalize layout.fields = fields at kept nodup known
  induction fields with
  | nil => exact Nat.zero_le _
  | cons head fields ih =>
      obtain ⟨apart, nodup⟩ := List.pairwise_cons.mp nodup
      obtain ⟨headKept, kept⟩ := List.forall_mem_cons.mp kept
      obtain ⟨headKnown, known⟩ := List.forall_mem_cons.mp known
      rw [List.map_cons, List.sum_cons, List.map_cons, List.sum_cons]
      by_cases same : head.id = field.id
      · obtain rfl := headKnown same
        have others : fields.map (RecordField.cost (head.put value draft)) =
            fields.map (RecordField.cost draft) :=
          List.map_congr_left fun other inside => kept other inside (apart other inside).symm
        rw [own, others]
        omega
      · have others := ih kept nodup known
        rw [headKept same]
        omega

/-- A field that is known takes what its value adds, and another field takes nothing back. -/
theorem cost_readField_le (lawful : layout.Lawful)
    (shortest : ∀ field ∈ layout.fields, field.codec.Shortest) {draft next : layout.Draft}
    {header : FieldHeader} {input rest : Bytes}
    (run : layout.readField draft header input = .ok (next, rest)) :
    layout.cost next + rest.length ≤ layout.cost draft + 1 + input.length := by
  rw [readField] at run
  cases known : layout.field? header.id with
  | none =>
      simp only [known] at run
      obtain ⟨skipped, middle, stepped, run⟩ := Reader.bind_eq_ok.mp run
      obtain ⟨rfl, rfl⟩ := Prod.mk.inj (Except.ok.inj run)
      have taken := Reader.TakesAtLeast.of_streams (skip_streams header.type) stepped
      omega
  | some field =>
      simp only [known] at run
      have member : field ∈ layout.fields := List.mem_of_find?_eq_some known
      obtain ⟨value, middle, read, run⟩ := Reader.bind_eq_ok.mp run
      obtain ⟨rfl, rfl⟩ := Prod.mk.inj (Except.ok.inj run)
      have taken := shortest field member read
      have added := lawful.cost_put_le member value draft
      dsimp only at taken
      omega

/-- A record has the stop to spare, so it exceeds what its fields are counted for. -/
theorem codec_exceeds (lawful : layout.Lawful) (low : ∀ field ∈ layout.fields, field.id ≤ 15)
    {content : ρ → Nat} (counted : ∀ record, content record ≤ layout.cost (layout.draft record)) :
    layout.codec.Exceeds content := by
  intro record
  change content record < (layout.encode record).length
  rw [lawful.length_encode low]
  exact Nat.lt_succ_of_le (counted record)

/-- Records are shortest when the values in their fields are: the headers that are written take the
single byte that no header can do without. -/
theorem codec_shortest (lawful : layout.Lawful) (low : ∀ field ∈ layout.fields, field.id ≤ 15)
    (shortest : ∀ field ∈ layout.fields, field.codec.Shortest) : layout.codec.Shortest := by
  intro input record rest run
  obtain ⟨draft, middle, walked, run⟩ := Reader.bind_eq_ok.mp run
  cases finished : layout.finish draft with
  | error fault => simp only [finished, Reader.ofExcept, Reader.fail, reduceCtorEq] at run
  | ok whole =>
      rw [finished] at run
      obtain ⟨rfl, rfl⟩ := Prod.mk.inj (Except.ok.inj run)
      have taken := foldFieldsFor_takes (lawful.cost_readField_le shortest) walked
      change (layout.encode whole).length + middle.length ≤ input.length
      rw [lawful.length_encode low, lawful.draft_of_finish finished]
      rwa [lawful.cost_blank, Nat.zero_add] at taken

end Lawful

end Layout

end Wire

end ParquetFooter
