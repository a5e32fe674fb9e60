import ParquetFooter.Proofs.Reader
import ParquetFooter.Wire.Vlq
import Mathlib.Algebra.Group.Nat.Defs

/-! # Round trips of integers

The groups of a number are terminated: the last byte, and no other, has its high bit clear. On
terminated bytes that do not outrun a word, reading gathers the number that the groups spell, modulo
`2 ^ 64`. A number that fits into a word may be spelled with any number of groups
(`Vlq.Spells`). The writer spells its number in the fewest, so every word is read back, and through
the zigzag folding every signed integer.
-/

namespace ParquetFooter.Wire

namespace Vlq

/-- The number that groups of seven bits spell, lowest group first. -/
def spelled : Bytes → Nat
  | [] => 0
  | byte :: rest => byte.toNat % 128 + 128 * spelled rest

theorem spelled_cons (byte : UInt8) (rest : Bytes) :
    spelled (byte :: rest) = byte.toNat % 128 + 128 * spelled rest := rfl

/-- The last byte is the only one whose high bit is clear. -/
def Terminated : Bytes → Prop
  | [] => False
  | [byte] => byte.toNat < 128
  | byte :: rest => 128 ≤ byte.toNat ∧ Terminated rest

/-- A group is the rest of its byte by 128. -/
theorem toNat_group (byte : UInt8) : (byte &&& 0x7F).toUInt64.toNat = byte.toNat % 128 := by
  rw [UInt8.toNat_toUInt64, UInt8.toNat_and]
  exact Nat.and_two_pow_sub_one_eq_mod byte.toNat 7

/-- The high bit of a byte is clear in the lower half of the bytes. -/
theorem highBit_eq_zero_iff (byte : UInt8) : byte &&& 0x80 = 0 ↔ byte.toNat < 128 := by
  have table : ∀ number : Fin 256, number.val &&& 128 = number.val / 128 * 128 := by decide +kernel
  have masked : (byte &&& 0x80).toNat = byte.toNat / 128 * 128 := by
    rw [UInt8.toNat_and]
    exact table ⟨byte.toNat, byte.toNat_lt⟩
  rw [← UInt8.toNat_inj, masked, UInt8.toNat_zero]
  omega

/-- A byte without the high bit is the last one. -/
theorem gather_last {byte : UInt8} (last : byte.toNat < 128) (shift word : UInt64) (rest : Bytes) :
    gather shift word (byte :: rest) =
      .ok (word ||| (byte &&& 0x7F).toUInt64 <<< shift, rest) := by
  rw [gather, if_pos ((highBit_eq_zero_iff byte).mpr last)]

/-- A byte with the high bit has others behind it, which stand seven bits higher. -/
theorem gather_inner {byte : UInt8} (high : 128 ≤ byte.toNat) (shift word : UInt64)
    (rest : Bytes) :
    gather shift word (byte :: rest) =
      gather (shift + 7) (word ||| (byte &&& 0x7F).toUInt64 <<< shift) rest := by
  rw [gather, if_neg (mt (highBit_eq_zero_iff byte).mp (Nat.not_lt_of_le high))]

/-- A group at bit position `shift` is added to a word that ends below it. -/
theorem toNat_or_group {word : UInt64} {shift : Nat} (position : shift < 64)
    (below : word.toNat < 2 ^ shift) (byte : UInt8) :
    (word ||| (byte &&& 0x7F).toUInt64 <<< UInt64.ofNat shift).toNat =
      (word.toNat + 2 ^ shift * (byte.toNat % 128)) % 2 ^ 64 := by
  have shiftNat : (UInt64.ofNat shift).toNat % 64 = shift := by
    rw [UInt64.toNat_ofNat_of_lt' (by change shift < 2 ^ 64; omega), Nat.mod_eq_of_lt position]
  have split : 2 ^ 64 = 2 ^ shift * 2 ^ (64 - shift) := by
    rw [← Nat.pow_add, Nat.add_sub_cancel' (Nat.le_of_lt position)]
  rw [UInt64.toNat_or, UInt64.toNat_shiftLeft, shiftNat, toNat_group, Nat.shiftLeft_eq,
    Nat.mul_comm _ (2 ^ shift), split, Nat.mul_mod_mul_left, Nat.or_comm,
    ← Nat.two_pow_add_eq_or_of_lt below, Nat.add_comm word.toNat, Nat.mod_mul,
    Nat.mul_add_div (Nat.two_pow_pos shift), Nat.div_eq_of_lt below, Nat.add_zero,
    Nat.mul_add_mod, Nat.mod_eq_of_lt below, Nat.add_comm]

/-- The bytes spell a number, in as few groups or as many as a writer likes. -/
structure Spells (bytes : Bytes) (number : Nat) : Prop where
  terminated : Terminated bytes
  total : spelled bytes = number

/-- Groups of zeros add nothing, however far behind the word they come. -/
theorem gather_zeros {bytes : Bytes} (spells : Spells bytes 0) (shift word : UInt64) :
    Reader.Reads (gather shift word) bytes word := by
  obtain ⟨terminated, zero⟩ := spells
  induction bytes generalizing shift with
  | nil => exact terminated.elim
  | cons byte others ih =>
      intro rest
      rw [spelled_cons] at zero
      have group : (byte &&& 0x7F).toUInt64 = 0 := by
        rw [← UInt64.toNat_inj, toNat_group, UInt64.toNat_zero]
        omega
      have kept : word ||| (byte &&& 0x7F).toUInt64 <<< shift = word := by
        rw [group, UInt64.zero_shiftLeft, UInt64.or_zero]
      cases others with
      | nil =>
          rw [List.cons_append, gather_last terminated, kept]
          rfl
      | cons next others =>
          obtain ⟨high, terminated⟩ := terminated
          rw [List.cons_append, gather_inner high, kept]
          exact ih (shift + 7) terminated (by omega) rest

/-- Terminated bytes from a bit position on add the number that they spell, if only the last of them
reaches past the word, or if the number fits. -/
theorem gather_terminated {bytes : Bytes} (terminated : Terminated bytes) {shift : Nat}
    {word : UInt64} (position : shift < 64) (below : word.toNat < 2 ^ shift)
    (room : shift + 7 * bytes.length ≤ 70 ∨ word.toNat + 2 ^ shift * spelled bytes < 2 ^ 64) :
    Reader.Reads (gather (UInt64.ofNat shift) word) bytes
      (UInt64.ofNat (word.toNat + 2 ^ shift * spelled bytes)) := by
  induction bytes generalizing shift word with
  | nil => exact terminated.elim
  | cons byte others ih =>
      intro rest
      have power : 2 ^ (shift + 7) = 2 ^ shift * 128 := Nat.pow_add 2 shift 7
      have sum : word.toNat + 2 ^ shift * spelled (byte :: others) =
          word.toNat + 2 ^ shift * (byte.toNat % 128) + 2 ^ (shift + 7) * spelled others := by
        rw [spelled_cons, Nat.mul_add, power, Nat.mul_assoc, Nat.add_assoc]
      have added := toNat_or_group position below byte
      have grown : word ||| (byte &&& 0x7F).toUInt64 <<< UInt64.ofNat shift =
          UInt64.ofNat (word.toNat + 2 ^ shift * (byte.toNat % 128)) := by
        rw [← UInt64.toNat_inj, added, UInt64.toNat_ofNat']
      rw [sum] at room ⊢
      rw [List.cons_append]
      cases others with
      | nil =>
          rw [gather_last terminated, grown, spelled, Nat.mul_zero, Nat.add_zero]
          rfl
      | cons next others =>
          obtain ⟨high, terminated⟩ := terminated
          rw [gather_inner high]
          -- Groups of zeros may go on past the word; where a one is left, its group begins inside.
          by_cases zero : spelled (next :: others) = 0
          · rw [zero, Nat.mul_zero, Nat.add_zero, ← grown]
            exact gather_zeros ⟨terminated, zero⟩ _ _ rest
          · have position : shift + 7 < 64 := by
              rcases room with short | bound
              · simp only [List.length_cons] at short
                omega
              · have least : 2 ^ (shift + 7) ≤ 2 ^ (shift + 7) * spelled (next :: others) :=
                  Nat.le_mul_of_pos_right _ (Nat.pos_of_ne_zero zero)
                exact (Nat.pow_lt_pow_iff_right (by decide)).mp
                  (Nat.lt_of_le_of_lt (Nat.le_add_left_of_le least) bound)
            have limit : 2 ^ (shift + 7) ≤ 2 ^ 63 := Nat.pow_le_pow_right (by decide) (by omega)
            have group : 2 ^ shift * (byte.toNat % 128) ≤ 2 ^ shift * 127 :=
              Nat.mul_le_mul_left _ (by omega)
            have step : UInt64.ofNat shift + 7 = UInt64.ofNat (shift + 7) :=
              (UInt64.ofNat_add shift 7).symm
            rw [Nat.mod_eq_of_lt (by omega)] at added
            rw [← added] at room ⊢
            rw [step]
            refine ih terminated position (by omega) ?_ rest
            simp only [List.length_cons] at room ⊢
            omega

/-- Reading gives the number that terminated bytes spell, if there are at most ten of them or if the
number fits into a word. -/
theorem read_terminated {bytes : Bytes} (terminated : Terminated bytes)
    (room : bytes.length ≤ 10 ∨ spelled bytes < 2 ^ 64) :
    Reader.Reads read bytes (UInt64.ofNat (spelled bytes)) := by
  have value : (0 : UInt64).toNat + 2 ^ 0 * spelled bytes = spelled bytes := by
    rw [UInt64.toNat_zero, Nat.pow_zero, Nat.one_mul, Nat.zero_add]
  have whole := gather_terminated terminated (show 0 < 64 by decide)
    (show (0 : UInt64).toNat < 2 ^ 0 by decide) (by omega)
  rwa [value] at whole

/-- Every number has a byte. -/
theorem encode_ne_nil (number : Nat) : encode number ≠ [] := by
  rw [encode]
  split <;> exact List.cons_ne_nil _ _

/-- What is written for a number spells it. -/
theorem spelled_encode (number : Nat) : spelled (encode number) = number := by
  fun_induction encode number with
  | case1 number small =>
      simp only [spelled, UInt8.toNat_ofNat', Nat.toUInt8_eq]
      omega
  | case2 number large ih =>
      simp only [spelled, ih, UInt8.toNat_ofNat', Nat.toUInt8_eq]
      omega

/-- What is written for a number ends in its last byte. -/
theorem terminated_encode (number : Nat) : Terminated (encode number) := by
  fun_induction encode number with
  | case1 number small =>
      simp only [Terminated, UInt8.toNat_ofNat', Nat.toUInt8_eq]
      omega
  | case2 number large ih =>
      obtain ⟨first, others, written⟩ := List.exists_cons_of_ne_nil (encode_ne_nil (number / 128))
      rw [written] at ih ⊢
      refine ⟨?_, ih⟩
      simp only [UInt8.toNat_ofNat', Nat.toUInt8_eq]
      omega

/-- A number takes one byte for every seven of its bits. -/
theorem length_encode_le {number count : Nat} (positive : 0 < count)
    (bound : number < 2 ^ (7 * count)) : (encode number).length ≤ count := by
  induction count generalizing number with
  | zero => exact absurd positive (Nat.lt_irrefl 0)
  | succ count ih =>
      rw [encode]
      split
      · exact Nat.succ_le_succ (Nat.zero_le count)
      · have power : 2 ^ (7 * (count + 1)) = 2 ^ (7 * count) * 128 := by
          rw [Nat.mul_succ, Nat.pow_add]
        have more : 0 < count := by
          rcases Nat.eq_zero_or_pos count with rfl | more
          · omega
          · exact more
        exact Nat.succ_le_succ (ih more ((Nat.div_lt_iff_lt_mul (by decide)).mpr (by omega)))

/-- Writing is one way to spell a number. -/
theorem spells_encode (number : Nat) : Spells (encode number) number :=
  ⟨terminated_encode number, spelled_encode number⟩

/-- A number that fits into a word is read from any bytes that spell it. -/
theorem Spells.reads {bytes : Bytes} {number : Nat} (spells : Spells bytes number)
    (bound : number < 2 ^ 64) : Reader.Reads read bytes (UInt64.ofNat number) := by
  obtain ⟨terminated, rfl⟩ := spells
  exact read_terminated terminated (.inr bound)

/-- A number that fits into a word is read back. -/
theorem read_encode {number : Nat} (bound : number < 2 ^ 64) :
    Reader.Reads read (encode number) (UInt64.ofNat number) :=
  (spells_encode number).reads bound

/-- A number of any size is stepped over. -/
theorem skip_terminated {bytes : Bytes} (terminated : Terminated bytes) :
    Reader.Reads skip bytes () := by
  intro rest
  induction bytes with
  | nil => exact terminated.elim
  | cons byte others ih =>
      cases others with
      | nil => rw [List.cons_append, skip, if_pos ((highBit_eq_zero_iff byte).mpr terminated)]; rfl
      | cons next others =>
          obtain ⟨high, terminated⟩ := terminated
          rw [List.cons_append, skip, if_neg (by rw [highBit_eq_zero_iff]; omega)]
          exact ih terminated

/-- Gathering ends with the first byte whose high bit is clear. -/
theorem gather_streams (shift word : UInt64) : (gather shift word).Streams where
  ok := by
    intro input value rest run
    induction input generalizing shift word with
    | nil => exact nomatch run
    | cons byte others ih =>
        rw [gather] at run
        split at run
        next last =>
          obtain ⟨rfl, rfl⟩ := Prod.mk.inj (Except.ok.inj run)
          refine ⟨[byte], rfl, fun more => ?_⟩
          rw [List.singleton_append, gather, if_pos last]
        next inner =>
          obtain ⟨taken, rfl, reads⟩ := ih _ _ run
          refine ⟨byte :: taken, rfl, fun more => ?_⟩
          rw [List.cons_append, gather, if_neg inner]
          exact reads more
  fault := by
    intro input fault run early more
    induction input generalizing shift word with
    | nil => exact absurd (Except.error.inj run).symm early
    | cons byte others ih =>
        rw [gather] at run
        split at run
        next => exact nomatch run
        next inner =>
          rw [List.cons_append, gather, if_neg inner]
          exact ih _ _ run
  content := by
    intro input fault run
    induction input generalizing shift word with
    | nil => exact Except.error.inj run ▸ trivial
    | cons byte others ih =>
        rw [gather] at run
        split at run
        next => exact nomatch run
        next => exact ih _ _ run

theorem read_streams : read.Streams := gather_streams 0 0

/-- A number is stepped over as it is gathered. -/
theorem skip_eq (shift word : UInt64) : skip = (do let _ ← gather shift word) := by
  funext input
  induction input generalizing shift word with
  | nil => rfl
  | cons byte others ih =>
      rw [Reader.bind_apply, skip, gather]
      split
      · rfl
      · rw [ih (shift + 7), Reader.bind_apply]

theorem skip_streams : skip.Streams := by
  rw [skip_eq 0 0]
  exact (gather_streams 0 0).map fun _ => ()

end Vlq

/-- The words of the integers that are not negative are the lower half. -/
theorem toNat_toUInt64_lt_iff (value : Int64) : value.toUInt64.toNat < 2 ^ 63 ↔ ¬ value < 0 := by
  have signed : value.toInt = value.toBitVec.toInt := (Int64.toInt_toBitVec value).symm
  have unsigned : value.toUInt64.toNat = value.toBitVec.toNat := rfl
  rw [Int64.lt_iff_toInt_lt, signed, unsigned, BitVec.toInt_eq_toNat_cond, Int64.toInt_zero]
  have := value.toBitVec.isLt
  split <;> omega

/-- Room for a bit below costs the highest one. -/
theorem toNat_shiftLeft_one (value : Int64) :
    (value <<< 1).toUInt64.toNat = 2 * value.toUInt64.toNat % 2 ^ 64 := by
  have doubled : (value <<< 1).toUInt64 = value.toUInt64 <<< 1 := rfl
  rw [doubled, UInt64.toNat_shiftLeft, UInt64.toNat_one, Nat.shiftLeft_eq,
    Nat.mod_eq_of_lt (show 1 < 64 by decide), Nat.pow_one, Nat.mul_comm]

/-- A magnitude that is not negative is doubled to make room for a sign in the lowest bit. -/
theorem toNat_fold {magnitude : Int64} (nonneg : ¬ magnitude < 0) {sign : Int64}
    (bit : sign = 0 ∨ sign = 1) :
    ((magnitude <<< 1) + sign).toUInt64.toNat =
      2 * magnitude.toUInt64.toNat + sign.toUInt64.toNat := by
  have low := (toNat_toUInt64_lt_iff magnitude).mpr nonneg
  have small : sign.toUInt64.toNat < 2 := by rcases bit with rfl | rfl <;> decide
  rw [Int64.toUInt64_add, UInt64.toNat_add, toNat_shiftLeft_one]
  omega

/-- A magnitude with a sign in the lowest bit stands for the magnitude, or for its complement. -/
theorem unzigzag_fold {magnitude : Int64} (nonneg : ¬ magnitude < 0) {sign : Int64}
    (bit : sign = 0 ∨ sign = 1) :
    unzigzag ((magnitude <<< 1) + sign).toUInt64 = magnitude ^^^ -sign := by
  have small : sign.toUInt64.toNat < 2 := by rcases bit with rfl | rfl <;> decide
  have folded := toNat_fold nonneg bit
  have upper : ((magnitude <<< 1) + sign).toUInt64 >>> 1 = magnitude.toUInt64 := by
    rw [← UInt64.toNat_inj, UInt64.toNat_shiftRight, folded, UInt64.toNat_one,
      Nat.shiftRight_eq_div_pow, Nat.mod_eq_of_lt (show 1 < 64 by decide)]
    omega
  have lower : ((magnitude <<< 1) + sign).toUInt64 &&& 1 = sign.toUInt64 := by
    rw [← UInt64.toNat_inj, UInt64.toNat_and, folded, UInt64.toNat_one, Nat.and_one_is_mod]
    omega
  rw [unzigzag, upper, lower]
  rfl

/-- The complement of a negative integer is not negative. -/
theorem not_complement_lt_zero {value : Int64} (negative : value < 0) : ¬ ~~~value < 0 := by
  rw [Int64.lt_iff_toInt_lt] at negative ⊢
  rw [Int64.toInt_not, Int64.toInt_zero]
  rw [Int64.toInt_zero] at negative
  have := value.le_toInt
  rw [Int.bmod_eq_of_le]
  all_goals omega

/-- Every integer is unfolded from its own word. -/
theorem unzigzag_zigzag (value : Int64) : unzigzag (zigzag value) = value := by
  rw [zigzag]
  by_cases negative : value < 0
  · simp only [negative, ↓reduceIte, Int64.xor_neg_one]
    rw [unzigzag_fold (not_complement_lt_zero negative) (.inr rfl), Int64.xor_neg_one,
      Int64.not_not]
  · simp only [negative, ↓reduceIte, Int64.neg_zero, Int64.xor_zero]
    rw [unzigzag_fold negative (.inl rfl), Int64.neg_zero, Int64.xor_zero]

/-- An integer of 64 bits is read off any spelling of it. -/
theorem readInt64_of_spells {value : Int64} {bytes : Bytes}
    (spells : Vlq.Spells bytes (zigzag value).toNat) : Reader.Reads readInt64 bytes value := by
  have word := (spells.reads (zigzag value).toNat_lt).map unzigzag
  rwa [UInt64.ofNat_toNat, unzigzag_zigzag] at word

/-- An integer of 64 bits is read back. -/
theorem readInt64_encodeInt (value : Int64) : Reader.Reads readInt64 (encodeInt value) value :=
  readInt64_of_spells (Vlq.spells_encode _)

theorem readInt32_encodeInt (value : Int32) :
    Reader.Reads readInt32 (encodeInt value.toInt64) value := by
  have wide := (readInt64_encodeInt value.toInt64).map Int64.toInt32
  rwa [Int32.toInt32_toInt64] at wide

/-- An integer of 16 bits is read off any spelling of it. -/
theorem readInt16_of_spells {value : Int16} {bytes : Bytes}
    (spells : Vlq.Spells bytes (zigzag value.toInt64).toNat) :
    Reader.Reads readInt16 bytes value := by
  have wide := (readInt64_of_spells spells).map Int64.toInt16
  rwa [Int16.toInt16_toInt64] at wide

theorem readInt16_encodeInt (value : Int16) :
    Reader.Reads readInt16 (encodeInt value.toInt64) value :=
  readInt16_of_spells (Vlq.spells_encode _)

/-- An integer of 64 bits streams. -/
theorem readInt64_streams : readInt64.Streams := Vlq.read_streams.map unzigzag

theorem readInt32_streams : readInt32.Streams := readInt64_streams.map Int64.toInt32

theorem readInt16_streams : readInt16.Streams := readInt64_streams.map Int64.toInt16

end ParquetFooter.Wire
