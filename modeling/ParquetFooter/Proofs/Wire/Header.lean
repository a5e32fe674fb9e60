import ParquetFooter.Proofs.Wire.Vlq
import ParquetFooter.Wire.Header

/-! # Round trips of headers

A short header keeps two numbers in the halves of one byte; a long one gives the id of a field, or
the size of a list, behind that byte. A header is read in either form (`FieldHeader.Spells`,
`ListHeader.Spells`), that of a list with its size cut off to 32 bits. So what is written is read
back, except for a list with a size past 31 bits, and for a field header where the writer takes a
step for a short one that only wrap-around made short (`FieldHeader.Wraps`). The reader refuses such
a step.
-/

namespace ParquetFooter.Wire

/-- The halves of a byte are put together by addition. -/
theorem toNat_halves {high low : UInt8} (highSmall : high.toNat < 16) (lowSmall : low.toNat < 16) :
    (high <<< 4 ||| low).toNat = 16 * high.toNat + low.toNat := by
  have shifted : (high <<< 4).toNat = 2 ^ 4 * high.toNat := by
    rw [UInt8.toNat_shiftLeft, Nat.shiftLeft_eq]
    change high.toNat * 2 ^ (4 % 8) % 2 ^ 8 = 2 ^ 4 * high.toNat
    rw [Nat.mod_eq_of_lt (show 4 < 8 by decide)]
    omega
  rw [UInt8.toNat_or, shifted, ← Nat.two_pow_add_eq_or_of_lt lowSmall]

/-- The lower half of a byte that is put together from two. -/
theorem lower_halves {high low : UInt8} (highSmall : high.toNat < 16) (lowSmall : low.toNat < 16) :
    (high <<< 4 ||| low) &&& 0x0F = low := by
  rw [← UInt8.toNat_inj, UInt8.toNat_and, toNat_halves highSmall lowSmall]
  exact (Nat.and_two_pow_sub_one_eq_mod _ 4).trans (by omega)

/-- The upper half of such a byte. -/
theorem upper_halves {high low : UInt8} (highSmall : high.toNat < 16) (lowSmall : low.toNat < 16) :
    (high <<< 4 ||| low) >>> 4 = high := by
  rw [← UInt8.toNat_inj, UInt8.toNat_shiftRight, toNat_halves highSmall lowSmall,
    Nat.shiftRight_eq_div_pow]
  change (16 * high.toNat + low.toNat) / 2 ^ (4 % 8) = high.toNat
  rw [Nat.mod_eq_of_lt (show 4 < 8 by decide)]
  omega

/-- The code of a type of a field has four bits. -/
theorem WireType.code_lt (type : WireType) : type.code.toNat < 16 := by
  cases type <;> decide

/-- The code of a type of elements has four bits. -/
theorem ElementType.code_lt (type : ElementType) : type.code.toNat < 16 := by
  cases type <;> decide

namespace FieldHeader

/-- An id below the one before it that looks like a short step up, because the difference of the two
leaves the 16 bit range. -/
def Wraps (id last : Int16) : Prop := id < last ∧ 0 < id - last ∧ id - last ≤ 15

/-- The first byte of a header that is no stop tells the type, and where the id is. -/
theorem read_cons {type : WireType} (field : type ≠ .stop) {byte : UInt8}
    (code : byte &&& 0x0F = type.code) (last : Int16) (rest : Bytes) :
    read last (byte :: rest) =
      if byte >>> 4 = 0 then (do return ⟨type, ← readInt16⟩ : Reader FieldHeader) rest
      else
        (idAfter? last (byte >>> 4)).elim (.error (.defect (.fieldId (byte >>> 4) last)))
          fun id => .ok (⟨type, id⟩, rest) := by
  cases type with
  | stop => exact absurd rfl field
  | _ =>
      simp only [read, Reader.bind_apply, Reader.byte, code, WireType.ofCode?_code]
      split
      next => exact Reader.bind_apply _ _ rest
      next => cases idAfter? last (byte >>> 4) <;> rfl

/-- A short header is read by its step. -/
theorem read_short {type : WireType} (field : type ≠ .stop) {step : UInt8} (up : 0 < step)
    (short : step ≤ 15) (last : Int16) (rest : Bytes) :
    read last ((step <<< 4 ||| type.code) :: rest) =
      (idAfter? last step).elim (.error (.defect (.fieldId step last)))
        fun id => .ok (⟨type, id⟩, rest) := by
  have small : step.toNat < 16 := Nat.lt_succ_of_le (UInt8.le_iff_toNat_le.mp short)
  have nonzero : ¬ step = 0 := by
    rintro rfl
    exact absurd up (by decide)
  rw [read_cons field (lower_halves small type.code_lt), upper_halves small type.code_lt,
    if_neg nonzero]

/-- The bytes of a field header after a field with id `last`: a step up to the id shares a byte with
the type, if it is short, or the id is given in full. -/
inductive Spells (type : WireType) (id last : Int16) : Bytes → Prop
  | step {step : UInt8} (up : 0 < step) (short : step ≤ 15)
      (leads : last.toInt + step.toNat = id.toInt) : Spells type id last [step <<< 4 ||| type.code]
  | full {number : Bytes} (spells : Vlq.Spells number (zigzag id.toInt64).toNat) :
      Spells type id last (type.code :: number)

/-- A field header is read in either form. -/
theorem Spells.reads {type : WireType} (field : type ≠ .stop) {id last : Int16} {header : Bytes}
    (spells : Spells type id last header) : Reader.Reads (read last) header ⟨type, id⟩ := by
  intro rest
  cases spells with
  | @step step up short leads =>
      have room : id.toInt ≤ Int16.maxValue.toInt := id.toInt_le
      have found : idAfter? last step = some id := by
        simp only [idAfter?, leads, room, ↓reduceIte, Int16.ofInt_toInt]
      rw [List.cons_append, read_short field up short, found]
      rfl
  | @full number spells =>
      have code : type.code &&& 0x0F = type.code := by cases type <;> rfl
      have long : type.code >>> 4 = 0 := by cases type <;> rfl
      rw [List.cons_append, read_cons field code, if_pos long]
      exact (readInt16_of_spells spells).map (FieldHeader.mk type) rest

/-- A step is short by its value at 16 bits. -/
theorem short_iff (id last : Int16) :
    0 < id - last ∧ id - last ≤ 15 ↔
      1 ≤ (id.toInt - last.toInt).bmod (2 ^ 16) ∧ (id.toInt - last.toInt).bmod (2 ^ 16) ≤ 15 := by
  rw [Int16.lt_iff_toInt_lt, Int16.le_iff_toInt_le, Int16.toInt_zero, Int16.toInt_sub]
  exact Iff.rfl

/-- A step from one id to the next wraps around when it goes down and comes out as 1 to 15. -/
theorem wraps_iff (id last : Int16) :
    Wraps id last ↔
      id.toInt - last.toInt < 0 ∧
        1 ≤ (id.toInt - last.toInt).bmod (2 ^ 16) ∧ (id.toInt - last.toInt).bmod (2 ^ 16) ≤ 15 := by
  rw [Wraps, short_iff, Int16.lt_iff_toInt_lt]
  exact and_congr_left' ⟨Int.sub_neg_of_lt, Int.lt_of_sub_neg⟩

/-- The lowest bits of the difference of two ids are those of its value at 16 bits. -/
theorem toUInt8_step (id last : Int16) :
    (id - last).toUInt16.toUInt8 = UInt8.ofInt (id.toInt - last.toInt) := by
  have signed : (id - last).toBitVec.toInt = (id.toInt - last.toInt).bmod (2 ^ 16) :=
    Int16.toInt_sub id last
  have cut : (id - last).toUInt16.toUInt8.toNat = (id - last).toBitVec.toNat % 2 ^ 8 := rfl
  have := (id - last).toBitVec.isLt
  rw [BitVec.toInt_eq_toNat_cond, Int.bmod_def] at signed
  rw [← UInt8.toNat_inj, UInt8.ofInt, UInt8.toNat_ofNat', cut]
  omega

/-- A short step is written as it is. -/
theorem toNat_step {id last : Int16} (up : 0 < id - last) (short : id - last ≤ 15) :
    ((id - last).toUInt16.toUInt8.toNat : Int) = (id.toInt - last.toInt).bmod (2 ^ 16) := by
  obtain ⟨positive, bounded⟩ := (short_iff id last).mp ⟨up, short⟩
  rw [toUInt8_step, UInt8.ofInt, UInt8.toNat_ofNat']
  rw [Int.bmod_def] at positive bounded ⊢
  omega

/-- A short step is not zero in a byte. -/
theorem step_pos {id last : Int16} (up : 0 < id - last) (short : id - last ≤ 15) :
    0 < (id - last).toUInt16.toUInt8 := by
  have step := toNat_step up short
  have positive := ((short_iff id last).mp ⟨up, short⟩).1
  rw [UInt8.lt_iff_toNat_lt, UInt8.toNat_zero]
  omega

/-- A short step fits into half a byte. -/
theorem step_le {id last : Int16} (up : 0 < id - last) (short : id - last ≤ 15) :
    (id - last).toUInt16.toUInt8 ≤ 15 := by
  have step := toNat_step up short
  have bounded := ((short_iff id last).mp ⟨up, short⟩).2
  rw [UInt8.le_iff_toNat_le]
  change _ ≤ 15
  omega

/-- A short step leads from the last id to the next one, unless it wraps: then it leads past all
ids. -/
theorem step_leads {id last : Int16} (up : 0 < id - last) (short : id - last ≤ 15) :
    last.toInt + (id - last).toUInt16.toUInt8.toNat =
      if id < last then id.toInt + 65536 else id.toInt := by
  obtain ⟨positive, bounded⟩ := (short_iff id last).mp ⟨up, short⟩
  have := id.toInt_lt
  have := id.le_toInt
  have := last.toInt_lt
  have := last.le_toInt
  rw [toNat_step up short]
  rw [Int.bmod_def] at positive bounded ⊢
  by_cases before : id < last
  · rw [if_pos before]
    rw [Int16.lt_iff_toInt_lt] at before
    omega
  · rw [if_neg before]
    rw [Int16.lt_iff_toInt_lt] at before
    omega

/-- The writer prefers the short form. -/
theorem spells_encode (type : WireType) {id last : Int16} (direct : ¬ Wraps id last) :
    Spells type id last (encode type id last) := by
  rw [encode]
  split
  next short =>
    obtain ⟨up, short⟩ := short
    have after : ¬ id < last := fun before => direct ⟨before, up, short⟩
    have leads := step_leads up short
    rw [if_neg after] at leads
    exact .step (step_pos up short) (step_le up short) leads
  next => exact .full (Vlq.spells_encode _)

/-- A field header is read back, unless its id wraps. -/
theorem read_encode {type : WireType} (field : type ≠ .stop) {id last : Int16}
    (direct : ¬ Wraps id last) : Reader.Reads (read last) (encode type id last) ⟨type, id⟩ :=
  (spells_encode type direct).reads field

/-- A field header whose id wraps is refused: it is written in the short form, and its step leads
past all ids. -/
theorem read_encode_of_wraps {type : WireType} (field : type ≠ .stop) {id last : Int16}
    (wraps : Wraps id last) (rest : Bytes) :
    read last (encode type id last ++ rest) =
      .error (.defect (.fieldId (id - last).toUInt16.toUInt8 last)) := by
  obtain ⟨before, up, short⟩ := wraps
  have leads := step_leads up short
  have lowest := id.le_toInt
  have outside : ¬ last.toInt + (id - last).toUInt16.toUInt8.toNat ≤ Int16.maxValue.toInt := by
    rw [leads, if_pos before]
    change ¬ _ ≤ (32767 : Int)
    omega
  have none : idAfter? last (id - last).toUInt16.toUInt8 = none := if_neg outside
  rw [encode, if_pos ⟨up, short⟩, List.cons_append,
    read_short field (step_pos up short) (step_le up short), none]
  rfl

/-- **Field headers are read back, except where the step between two ids wraps.** For all ids, the
header of a field that is no stop is read as the type and the id that were written, and exactly its
bytes are taken, unless the id lies below the last one and their difference at 16 bits looks like a
short step up. Such a header is refused for that step. -/
theorem read_encode_unless_wrapped {type : WireType} (field : type ≠ .stop) (id last : Int16)
    (rest : Bytes) :
    read last (encode type id last ++ rest) =
      if id.toInt - last.toInt < 0 ∧
          1 ≤ (id.toInt - last.toInt).bmod (2 ^ 16) ∧ (id.toInt - last.toInt).bmod (2 ^ 16) ≤ 15
      then .error (.defect (.fieldId (UInt8.ofInt (id.toInt - last.toInt)) last))
      else .ok (⟨type, id⟩, rest) := by
  by_cases wraps : Wraps id last
  · rw [if_pos ((wraps_iff id last).mp wraps), ← toUInt8_step]
    exact read_encode_of_wraps field wraps rest
  · rw [if_neg (mt (wraps_iff id last).mpr wraps)]
    exact read_encode field wraps rest

/-- An id behind a larger one is written in full, an id as far up as a short step goes shares the
byte of the type, and the lowest id behind the highest looks like a step of one. -/
theorem read_encode_unless_wrapped_ends :
    WireType.binary ≠ .stop ∧
      read 20 (encode .binary 1 20 ++ [0xFF]) = .ok (⟨.binary, 1⟩, [0xFF]) ∧
      read 5 (encode .binary 20 5 ++ [0xFF]) = .ok (⟨.binary, 20⟩, [0xFF]) ∧
      read Int16.maxValue (encode .binary Int16.minValue Int16.maxValue ++ [0xFF]) =
        .error (.defect (.fieldId 1 Int16.maxValue)) :=
  have field : WireType.binary ≠ .stop := by decide
  ⟨field, read_encode_unless_wrapped field 1 20 [0xFF],
    read_encode_unless_wrapped field 20 5 [0xFF],
    read_encode_unless_wrapped field Int16.minValue Int16.maxValue [0xFF]⟩

/-- A header of a field streams. -/
theorem read_streams (last : Int16) : (read last).Streams := by
  refine Reader.Streams.byte.bind fun byte => ?_
  dsimp only
  split
  next => exact .fail trivial
  next => exact .pure _
  next type known field =>
    split
    next => exact readInt16_streams.map (FieldHeader.mk type)
    next =>
      split
      next id found => exact .pure _
      next => exact .fail trivial

/-- A header is not read off nothing. -/
theorem ne_nil_of_reads {last : Int16} {bytes : Bytes} {header : FieldHeader}
    (reads : Reader.Reads (read last) bytes header) : bytes ≠ [] := by
  rintro rfl
  exact nomatch reads []

end FieldHeader

/-- A code that announces elements of a type; truth values have two. -/
def ElementType.HasCode (type : ElementType) (code : UInt8) : Prop :=
  code = type.code ∨ type = .bool ∧ code = 1

/-- Any code that is read as a type of elements has four bits. -/
theorem ElementType.HasCode.lt {type : ElementType} {code : UInt8} (coded : type.HasCode code) :
    code.toNat < 16 := by
  rcases coded with rfl | ⟨-, rfl⟩
  · exact type.code_lt
  · decide

/-- Any code that a type of elements has is read as that type. -/
theorem ElementType.HasCode.ofCode?_eq {type : ElementType} {code : UInt8}
    (coded : type.HasCode code) : ofCode? code = some type := by
  rcases coded with rfl | ⟨rfl, rfl⟩
  · exact ofCode?_code type
  · rfl

namespace ListHeader

/-- The bytes of a list header: a size below 15 shares a byte with the code of the type, if the
writer likes, and any size may follow it. -/
inductive Spells (type : ElementType) (size : Nat) : Bytes → Prop
  | short {code : UInt8} (coded : type.HasCode code) (few : size < 15) :
      Spells type size [size.toUInt8 <<< 4 ||| code]
  | long {code : UInt8} {number : Bytes} (coded : type.HasCode code)
      (spells : Vlq.Spells number size) : Spells type size ((0xF0 ||| code) :: number)

/-- A size is cut off to 32 bits at once or by way of 64 bits. -/
theorem cut_ofNat (size : Nat) : (UInt64.ofNat size).toUInt32.toInt32 = Int32.ofNat size := by
  rw [← Int32.toBitVec_inj]
  change ((UInt64.ofNat size).toBitVec).setWidth 32 = BitVec.ofNat 32 size
  change (BitVec.ofNat 64 size).setWidth 32 = BitVec.ofNat 32 size
  exact BitVec.setWidth_ofNat_of_le (by decide) size

/-- The size in front of a list is cut off to 32 bits. -/
theorem readSize_of_spells {size : Nat} {number : Bytes} (spells : Vlq.Spells number size)
    (bound : size < 2 ^ 64) : Reader.Reads (readSize 15) number (Int32.ofNat size) :=
  cut_ofNat size ▸ (spells.reads bound).map fun word => word.toUInt32.toInt32

/-- A size that is cut off to 32 bits wraps around. -/
theorem toInt_cut (size : Nat) : (Int32.ofNat size).toInt = (size : Int).bmod (2 ^ 32) :=
  Int32.toInt_ofNat'

/-- Cut off to 32 bits, a size is negative when its bit 31 is set. -/
theorem cut_lt_zero_iff (size : Nat) : Int32.ofNat size < 0 ↔ size.testBit 31 = true := by
  rw [Int32.lt_iff_toInt_lt, Int32.toInt_zero, toInt_cut, Int.bmod_def,
    Nat.testBit_eq_decide_div_mod_eq, decide_eq_true_iff]
  omega

/-- Cut off to 32 bits, a size that does not become negative keeps its lowest bits. -/
theorem toNat_cut {size : Nat} (clear : ¬ size.testBit 31 = true) :
    (Int32.ofNat size).toInt.toNat = size % 2 ^ 32 := by
  rw [Nat.testBit_eq_decide_div_mod_eq, decide_eq_true_iff] at clear
  rw [toInt_cut, Int.bmod_def]
  omega

/-- The first byte of a list header tells the type, and where the size is. -/
theorem read_cons {type : ElementType} {code nibble : UInt8} (coded : type.HasCode code)
    (small : nibble.toNat < 16) {size : Nat} {number : Bytes}
    (sized : Reader.Reads (readSize nibble) number (Int32.ofNat size)) (rest : Bytes) :
    read ((nibble <<< 4 ||| code) :: (number ++ rest)) =
      if size.testBit 31 then .error (.defect (.listSize (Int32.ofNat size)))
      else .ok (⟨type, size % 2 ^ 32⟩, rest) := by
  simp only [read, Reader.bind_apply, Reader.byte, lower_halves small coded.lt,
    upper_halves small coded.lt, coded.ofCode?_eq, sized rest, cut_lt_zero_iff]
  split
  next => rfl
  next clear => rw [toNat_cut clear, Reader.pure_apply]

/-- The header of a list is read in either form, with the size cut off to 32 bits. -/
theorem Spells.run {type : ElementType} {size : Nat} {header : Bytes}
    (spells : Spells type size header) (bound : size < 2 ^ 64) (rest : Bytes) :
    read (header ++ rest) =
      if size.testBit 31 then .error (.defect (.listSize (Int32.ofNat size)))
      else .ok (⟨type, size % 2 ^ 32⟩, rest) := by
  cases spells with
  | @short code coded few =>
      have nibble : size.toUInt8.toNat = size := by
        rw [Nat.toUInt8_eq, UInt8.toNat_ofNat']
        omega
      have direct : ¬ size.toUInt8 = 15 := by
        rw [← UInt8.toNat_inj, nibble]
        change ¬ size = 15
        omega
      have sized : Reader.Reads (readSize size.toUInt8) [] (Int32.ofNat size) := by
        rw [readSize, if_neg direct, nibble]
        exact .pure _
      exact read_cons coded (by omega) sized rest
  | @long code number coded spells =>
      exact read_cons coded (show (15 : UInt8).toNat < 16 by decide)
        (readSize_of_spells spells bound) rest

/-- A list header is read in either form, as long as its size fits into 31 bits. -/
theorem Spells.reads {type : ElementType} {size : Nat} {header : Bytes}
    (spells : Spells type size header) (bound : size < 2 ^ 31) :
    Reader.Reads read header ⟨type, size⟩ := by
  intro rest
  have clear : ¬ size.testBit 31 = true := by
    rw [Nat.testBit_lt_two_pow bound]
    exact Bool.false_ne_true
  rw [spells.run (by omega) rest, if_neg clear, Nat.mod_eq_of_lt (by omega)]

/-- The writer prefers the short form. -/
theorem spells_encode (type : ElementType) (size : Nat) : Spells type size (encode type size) := by
  rw [encode]
  split
  next few => exact .short (.inl rfl) few
  next => exact .long (.inl rfl) (Vlq.spells_encode size)

/-- A list header is read back as long as its size fits into 31 bits. -/
theorem read_encode (type : ElementType) {size : Nat} (bound : size < 2 ^ 31) :
    Reader.Reads read (encode type size) ⟨type, size⟩ :=
  (spells_encode type size).reads bound

/-- No list header is taken for one of its size if that does not fit into 31 bits. -/
theorem read_encode_eq_ok_iff (type : ElementType) {size : Nat} (bound : size < 2 ^ 64)
    (rest : Bytes) :
    read (encode type size ++ rest) = .ok (⟨type, size⟩, rest) ↔ size < 2 ^ 31 := by
  refine ⟨fun run => ?_, fun small => read_encode type small rest⟩
  rw [(spells_encode type size).run bound rest] at run
  split at run
  next => cases run
  next clear =>
    have kept : size % 2 ^ 32 = size :=
      congrArg (fun result => result.1.size) (Except.ok.inj run)
    rw [Nat.testBit_eq_decide_div_mod_eq, decide_eq_true_iff] at clear
    omega

theorem readSize_streams (nibble : UInt8) : (readSize nibble).Streams := by
  rw [readSize]
  split
  next => exact Vlq.read_streams.map fun word => word.toUInt32.toInt32
  next => exact .pure _

/-- A header of a list streams. -/
theorem read_streams : read.Streams := by
  refine Reader.Streams.byte.bind fun byte => ?_
  dsimp only
  split
  next => exact .fail trivial
  next type known =>
    refine (readSize_streams _).bind fun size => ?_
    split
    next => exact .fail trivial
    next => exact .pure _

/-- The size of a list that was read fits into 31 bits. -/
theorem size_lt_of_read {input rest : Bytes} {header : ListHeader}
    (run : read input = .ok (header, rest)) : header.size < 2 ^ 31 := by
  rw [read, Reader.bind_eq_ok] at run
  obtain ⟨byte, middle, _, run⟩ := run
  cases known : ElementType.ofCode? (byte &&& 0x0F) with
  | none => simp only [known, Reader.fail, reduceCtorEq] at run
  | some type =>
      simp only [known] at run
      obtain ⟨size, final, _, run⟩ := Reader.bind_eq_ok.mp run
      split at run
      · exact nomatch run
      · obtain ⟨rfl, rfl⟩ := Prod.mk.inj (Except.ok.inj run)
        have := size.toInt_lt
        change size.toInt.toNat < 2 ^ 31
        omega

end ListHeader

end ParquetFooter.Wire
