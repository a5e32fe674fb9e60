import ParquetFooter.Proofs.Wire.Length
import Mathlib.Algebra.BigOperators.Fin

/-! # Arithmetic of integers of variable length

What is read agrees with arithmetic on unbounded integers. Groups of seven bits are the digits of a
number to the base 128, lowest first, and a word holds that number modulo `2 ^ 64`. Folding a signed
integer onto a word loses nothing on the way, at both ends of the range (`FoldsExactly`), and a
narrow integer is the rest of the wide one in its range.
-/

namespace ParquetFooter.Wire

namespace Vlq

/-- Groups spell the sum of what they stand for at their places. -/
theorem spelled_eq_sum (bytes : Bytes) :
    spelled bytes =
      ∑ place : Fin bytes.length, bytes[place].toNat % 128 * 2 ^ (7 * place.val) := by
  induction bytes with
  | nil => rfl
  | cons byte others ih =>
      -- Behind the first group, every other one stands seven bits higher.
      have higher (place : Fin others.length) :
          others[place].toNat % 128 * 2 ^ (7 * (place.val + 1)) =
            128 * (others[place].toNat % 128 * 2 ^ (7 * place.val)) := by
        rw [Nat.mul_succ, Nat.pow_add, Nat.mul_comm 128, Nat.mul_assoc]
      have first : byte.toNat % 128 * 2 ^ (7 * 0) = byte.toNat % 128 := Nat.mul_one _
      calc spelled (byte :: others)
          = byte.toNat % 128 + 128 * spelled others := spelled_cons byte others
        _ = byte.toNat % 128 * 2 ^ (7 * 0) + ∑ place : Fin others.length,
              others[place].toNat % 128 * 2 ^ (7 * (place.val + 1)) := by
            simp only [first, higher, ih, Finset.mul_sum]
        _ = ∑ place : Fin (byte :: others).length,
              (byte :: others)[place].toNat % 128 * 2 ^ (7 * place.val) :=
            (Fin.sum_univ_succ fun place : Fin (others.length + 1) =>
              (byte :: others)[place].toNat % 128 * 2 ^ (7 * place.val)).symm

/-- Terminated bytes are read as some word, however many there are. -/
theorem exists_reads {bytes : Bytes} (terminated : Terminated bytes) :
    ∃ word, Reader.Reads read bytes word := by
  have skipped := skip_terminated terminated []
  rw [List.append_nil, skip_eq 0 0] at skipped
  obtain ⟨word, rest, gathered, nothing⟩ := Reader.bind_eq_ok.mp skipped
  obtain ⟨-, rfl⟩ := Prod.mk.inj (Except.ok.inj nothing)
  exact ⟨word, read_streams.reads gathered⟩

end Vlq

/-- The lowest bit of the word of an integer. -/
def foldedSign (value : Int64) : Int64 := if value < 0 then 1 else 0

/-- The bits of the word of an integer above the lowest. -/
def foldedMagnitude (value : Int64) : Int64 := (value ^^^ -foldedSign value) <<< 1

/-- Folding an integer computes what it would without bounds: neither the negation of the sign nor
the sum leaves the range of 64 bits, and the word counts the integers by their magnitude. -/
structure FoldsExactly (value : Int64) : Prop where
  /-- The word is made of these two and nothing else. -/
  parts : zigzag value = (foldedMagnitude value + foldedSign value).toUInt64
  negation : (-foldedSign value).toInt = -(foldedSign value).toInt
  sum : (foldedMagnitude value + foldedSign value).toInt =
    (foldedMagnitude value).toInt + (foldedSign value).toInt
  /-- The shift that makes room for the sign has dropped no bit of the magnitude. -/
  word : ((zigzag value).toNat : Int) =
    if value.toInt < 0 then -2 * value.toInt - 1 else 2 * value.toInt

theorem foldedSign_eq_or (value : Int64) : foldedSign value = 0 ∨ foldedSign value = 1 := by
  rw [foldedSign]
  split
  · exact .inr rfl
  · exact .inl rfl

/-- Room for the sign is made in the lowest bit. -/
theorem toInt_foldedMagnitude_even (value : Int64) : (foldedMagnitude value).toInt % 2 = 0 := by
  have signed : (foldedMagnitude value).toInt = (foldedMagnitude value).toBitVec.toInt := rfl
  have unsigned : (foldedMagnitude value).toBitVec.toNat =
      2 * (value ^^^ -foldedSign value).toUInt64.toNat % 2 ^ 64 :=
    toNat_shiftLeft_one (value ^^^ -foldedSign value)
  rw [signed, BitVec.toInt_eq_toNat_cond, unsigned]
  split <;> omega

/-- No integer overflows when it is folded and unfolded. -/
theorem foldsExactly (value : Int64) : FoldsExactly value where
  parts := rfl
  negation := by
    rcases foldedSign_eq_or value with sign | sign
    · rw [sign]
      rfl
    · rw [sign]
      rfl
  sum := by
    have even := toInt_foldedMagnitude_even value
    have low := (foldedMagnitude value).le_toInt
    have high := (foldedMagnitude value).toInt_lt
    have sign : (foldedSign value).toInt = 0 ∨ (foldedSign value).toInt = 1 :=
      (foldedSign_eq_or value).imp (congrArg Int64.toInt) (congrArg Int64.toInt)
    rw [Int64.toInt_add, Int.bmod_eq_of_le]
    all_goals omega
  word := toNat_zigzag value

/-- **Integers are read exactly.** At most ten terminated groups are read as the number that they
stand for, modulo `2 ^ 64`, and exactly their bytes are taken. The groups written for a word are of
this kind and are read as that word, and nothing that is read as it takes fewer bytes. Signed
integers are folded without overflow and read back. From any terminated groups, integers of 32 and
of 16 bits are read as the lowest bits, with a sign, of the integer of 64 bits that is read from
them. -/
theorem integers_are_read_exactly :
    (∀ bytes, Vlq.Terminated bytes → bytes.length ≤ 10 →
      ∃ word, Reader.Reads Vlq.read bytes word ∧ word.toNat =
        (∑ place : Fin bytes.length, bytes[place].toNat % 128 * 2 ^ (7 * place.val)) % 2 ^ 64) ∧
    (∀ word : UInt64,
      Vlq.Terminated (Vlq.encode word.toNat) ∧ (Vlq.encode word.toNat).length ≤ 10 ∧
      Reader.Reads Vlq.read (Vlq.encode word.toNat) word ∧
      ∀ input rest, Vlq.read input = .ok (word, rest) →
        (Vlq.encode word.toNat).length + rest.length ≤ input.length) ∧
    (∀ value : Int64, FoldsExactly value ∧ Reader.Reads readInt64 (encodeInt value) value) ∧
    ∀ bytes, Vlq.Terminated bytes →
      ∃ wide narrow narrower, Reader.Reads readInt64 bytes wide ∧
        (Reader.Reads readInt32 bytes narrow ∧ narrow.toInt = wide.toInt.bmod (2 ^ 32)) ∧
        Reader.Reads readInt16 bytes narrower ∧ narrower.toInt = wide.toInt.bmod (2 ^ 16) := by
  refine ⟨fun bytes terminated short => ?_, fun word => ?_,
    fun value => ⟨foldsExactly value, readInt64_encodeInt value⟩, fun bytes terminated => ?_⟩
  · refine ⟨_, Vlq.read_terminated terminated (.inl short), ?_⟩
    rw [UInt64.toNat_ofNat', Vlq.spelled_eq_sum]
  · have back := Vlq.read_encode word.toNat_lt
    rw [UInt64.ofNat_toNat] at back
    have short := Vlq.length_encode_le (show 0 < 10 by decide)
      (Nat.lt_of_lt_of_le word.toNat_lt (show 2 ^ 64 ≤ 2 ^ (7 * 10) by decide))
    exact ⟨Vlq.terminated_encode _, short, back, fun input rest run => Vlq.read_takes run⟩
  · obtain ⟨word, reads⟩ := Vlq.exists_reads terminated
    have wide : Reader.Reads readInt64 bytes (unzigzag word) := reads.map unzigzag
    exact ⟨_, _, _, wide, ⟨wide.map Int64.toInt32, Int64.toInt_toInt32 _⟩,
      wide.map Int64.toInt16, Int64.toInt_toInt16 _⟩

/-- Ten groups, the last of which has a bit more than a word. -/
def overfullGroups : Bytes := [0x81, 0x80, 0x80, 0x80, 0x80, 0x80, 0x80, 0x80, 0x80, 0x03]

/-- Twelve groups of an integer that takes five. -/
def paddedGroups : Bytes :=
  [0x82, 0x80, 0x80, 0x80, 0xA0, 0x80, 0x80, 0x80, 0x80, 0x80, 0x80, 0x00]

/-- The bit that a word has no place for is lost, zero may be read from two groups but is written in
one, and an integer past 32 bits is cut off. -/
theorem integers_are_read_exactly_sample :
    (Vlq.Terminated overfullGroups ∧ overfullGroups.length ≤ 10 ∧
      Reader.Reads Vlq.read overfullGroups 0x8000000000000001) ∧
    (Vlq.read [0x80, 0x00, 0xFF] = .ok (0, [0xFF]) ∧
      (Vlq.encode 0).length + [(0xFF : UInt8)].length ≤ [(0x80 : UInt8), 0x00, 0xFF].length) ∧
    (Vlq.Terminated paddedGroups ∧ Reader.Reads readInt64 paddedGroups 0x100000001 ∧
      Reader.Reads readInt32 paddedGroups 1 ∧ Reader.Reads readInt16 paddedGroups 1) := by
  have overfull : Vlq.Terminated overfullGroups := by simp [Vlq.Terminated, overfullGroups]
  have padded : Vlq.Terminated paddedGroups := by simp [Vlq.Terminated, paddedGroups]
  obtain ⟨word, reads, value⟩ := integers_are_read_exactly.1 _ overfull (by decide)
  obtain ⟨wide, narrow, narrower, readsWide, ⟨readsNarrow, low32⟩, readsNarrower, low16⟩ :=
    integers_are_read_exactly.2.2.2 _ padded
  have lost : word = 0x8000000000000001 := by
    rw [← UInt64.toNat_inj, value]
    decide +kernel
  have whole : wide = 0x100000001 :=
    (congrArg Prod.fst (Except.ok.inj (readsWide []))).symm
  subst lost whole
  have cut32 : narrow = 1 := Int32.toInt_inj.mp low32
  have cut16 : narrower = 1 := Int16.toInt_inj.mp low16
  subst cut32 cut16
  exact ⟨⟨overfull, by decide, reads⟩,
    ⟨rfl, (integers_are_read_exactly.2.1 0).2.2.2 _ _ rfl⟩, padded, readsWide, readsNarrow,
    readsNarrower⟩

end ParquetFooter.Wire
