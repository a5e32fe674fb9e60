import ParquetFooter.Proofs.Framing.Tail
import Mathlib.Algebra.Group.Nat.Defs

/-! # Sources are interchangeable

Bytes in memory and files check their bounds in different ways, the ones before they read and the
others by what came. They give the same bytes where the content has them, and both fall short where
it has not. Loading never sees the difference: every number that it computes and every request that
it makes is in range, whatever length a trailer announces.
-/

namespace ParquetFooter

namespace ByteSource

variable {content : Bytes} {start count : Nat}

/-- Bytes in memory are too few where they end before the range. -/
theorem readRange_memory_of_lt (beyond : content.length < start + count) :
    (memory content).readRange start count =
      .error (.shortfall (.range count start content.length)) :=
  if_pos beyond

/-- A file has no bytes behind its end, so fewer bytes come than were asked for. -/
theorem readRange_file_of_lt (beyond : content.length < start + count) (some : 0 < count) :
    (file content).readRange start count =
      .error (.shortfall (.file count ((content.drop start).take count).length)) := by
  apply if_neg
  rw [List.length_take, List.length_drop]
  omega

end ByteSource

/-- On the way nothing is out of range: no sum is too large and no difference is negative, all
requests lie in the source, and each of them is answered. -/
def Loading.InRange (source : ByteSource) : Loading → Prop
  | ends _ => True
  | sum left right next => left + right < 2 ^ 64 ∧ (next (left + right)).InRange source
  | difference whole part next => part ≤ whole ∧ (next (whole - part)).InRange source
  | readExactly start count next => start + count ≤ source.length ∧
      ∃ bytes, source.readExactly start count = .ok bytes ∧ (next bytes).InRange source
  | readRange start count next => start + count ≤ source.length ∧
      ∃ bytes, source.readRange start count = .ok bytes ∧ (next bytes).InRange source

namespace FileMetadata

/-- So many bytes hold a number below that power of 256. -/
theorem ofLittleEndian_lt (bytes : Bytes) : ofLittleEndian bytes < 256 ^ bytes.length := by
  induction bytes with
  | nil => exact Nat.one_pos
  | cons low high ih =>
      have small := low.toNat_lt
      rw [ofLittleEndian, List.length_cons, Nat.pow_succ]
      omega

/-- A trailer has four bytes for the length. -/
theorem footerLength_lt {trailer : Bytes} {length : Nat}
    (told : footerLength trailer = .ok length) : length < 2 ^ 32 := by
  unfold footerLength at told
  split at told
  next =>
    obtain rfl := Except.ok.inj told
    calc ofLittleEndian (trailer.take 4)
        < 256 ^ (trailer.take 4).length := ofLittleEndian_lt _
      _ ≤ 256 ^ 4 := Nat.pow_le_pow_right (by decide) (List.length_take_le 4 trailer)
      _ = 2 ^ 32 := by decide
  next => cases told

/-- Loading from a source that holds a content takes no step out of range. -/
theorem inRange_loading {source : ByteSource} {content : Bytes} (holds : source.Holds content) :
    (loading source.length).InRange source := by
  unfold loading
  by_cases short : source.length < trailerSize
  · rw [if_pos short]
    trivial
  · rw [if_neg short]
    have long := Nat.le_of_not_lt short
    have trailerInside : source.length - trailerSize + trailerSize ≤ source.length := by omega
    refine ⟨long, trailerInside, _, holds.readExactly (holds.length ▸ trailerInside), ?_⟩
    dsimp only
    split
    next => trivial
    next footer told =>
      -- The length was read from four bytes, so the sum with the trailer fits into a word.
      have fits : trailerSize + footer < 2 ^ 64 := by
        have small := footerLength_lt told
        have eight : trailerSize = 8 := rfl
        omega
      refine ⟨fits, ?_⟩
      dsimp only
      by_cases cut : source.length < trailerSize + footer
      · rw [if_pos cut]
        trivial
      · rw [if_neg cut]
        have footerInside : source.length - (trailerSize + footer) + footer ≤ source.length := by
          omega
        exact ⟨Nat.le_of_not_lt cut, footerInside, _,
          holds.readRange _ _ (holds.length ▸ footerInside), trivial⟩

/-- **Memory and files are interchangeable.** A range of a content is given by both sources alike
where the content has it, both fall short where the content ends before a range that is not empty,
and both give all that follows an offset within the content. Loading takes steps none of which is
out of range for either of them, so it has the same outcome. -/
theorem memory_file_interchangeable (content : Bytes) :
    (∀ start count, start + count ≤ content.length →
      (ByteSource.memory content).readRange start count = .ok ((content.drop start).take count) ∧
      (ByteSource.file content).readRange start count = .ok ((content.drop start).take count)) ∧
    (∀ start count, content.length < start + count → 0 < count →
      (∃ cause, (ByteSource.memory content).readRange start count = .error (.shortfall cause)) ∧
      ∃ cause, (ByteSource.file content).readRange start count = .error (.shortfall cause)) ∧
    (∀ start ≤ content.length,
      (ByteSource.memory content).readFrom start = .ok (content.drop start) ∧
      (ByteSource.file content).readFrom start = .ok (content.drop start)) ∧
    (∀ source, source = ByteSource.memory content ∨ source = ByteSource.file content →
      load source = (loading source.length).run source ∧
      (loading source.length).InRange source) ∧
    load (.memory content) = load (.file content) := by
  have memory := ByteSource.memory_holds content
  have file := ByteSource.file_holds content
  refine ⟨fun start count inside => ?_, fun start count beyond some => ?_, fun start inside => ?_,
    fun source either => ⟨rfl, ?_⟩, ?_⟩
  · exact ⟨memory.readRange start count inside, file.readRange start count inside⟩
  · exact ⟨⟨_, ByteSource.readRange_memory_of_lt beyond⟩,
      ⟨_, ByteSource.readRange_file_of_lt beyond some⟩⟩
  · exact ⟨memory.readFrom start inside, file.readFrom start inside⟩
  · rcases either with rfl | rfl
    · exact inRange_loading memory
    · exact inRange_loading file
  · rw [load_eq memory, load_eq file]

/-- The mixed footer is loaded from a file with all steps in range. -/
theorem memory_file_interchangeable_sample :
    let content := magic ++ sample.ending
    (0 + 4 ≤ content.length ∧ (ByteSource.memory content).readRange 0 4 = .ok magic ∧
      (ByteSource.file content).readRange 0 4 = .ok magic) ∧
    (content.length < content.length + 3 ∧
      (∃ cause, (ByteSource.memory content).readRange content.length 3 =
        .error (.shortfall cause)) ∧
      ∃ cause, (ByteSource.file content).readRange content.length 3 = .error (.shortfall cause)) ∧
    (4 ≤ content.length ∧ (ByteSource.memory content).readFrom 4 = .ok sample.ending ∧
      (ByteSource.file content).readFrom 4 = .ok sample.ending) ∧
    (loading (ByteSource.file content).length).InRange (.file content) ∧
    load (.memory content) = load (.file content) := by
  intro content
  have inside : 4 ≤ content.length := by
    rw [List.length_append]
    exact Nat.le_add_right _ _
  have beyond : content.length < content.length + 3 := Nat.lt_add_of_pos_right (by decide)
  obtain ⟨ranges, shortfalls, offsets, steps, same⟩ := memory_file_interchangeable content
  exact ⟨⟨inside, ranges 0 4 inside⟩, ⟨beyond, shortfalls _ 3 beyond (by decide)⟩,
    ⟨inside, offsets 4 inside⟩, (steps _ (.inr rfl)).2, same⟩

end FileMetadata

end ParquetFooter
