import ParquetFooter.Proofs.Metadata.Refusal
import Mathlib.Data.List.DropRight

/-! # Loading from the end of a content

A source holds a content when it gives the bytes of the content that it is asked for. Loading from
such a source depends on the last bytes only: the trailer, and the footer whose length the trailer
tells. Bytes in memory and files hold their content, so what is loaded is the same for both.
-/

/-- The last values of a list are the last values of an end of it that has as many. -/
theorem List.IsSuffix.rtake_eq {α : Type} {held whole : List α} (suffix : held <:+ whole)
    {count : Nat} (enough : count ≤ held.length) : whole.rtake count = held.rtake count := by
  obtain ⟨front, rfl⟩ := suffix
  have skipped : front.length ≤ (front ++ held).length - count := by
    rw [List.length_append]
    omega
  rw [List.rtake, List.rtake, List.drop_append, List.drop_eq_nil_of_le skipped, List.nil_append,
    List.length_append]
  congr 1
  omega

/-- The last few values of the last many are the last few of all. -/
theorem List.rtake_rtake_of_le {α : Type} {whole : List α} {few many : Nat} (within : few ≤ many) :
    (whole.rtake many).rtake few = whole.rtake few := by
  rw [List.rtake, List.rtake, List.rtake, List.drop_drop, List.length_drop]
  congr 1
  omega

namespace ParquetFooter

/-- The source gives what it is asked for, as long as the content has it. -/
structure ByteSource.Holds (source : ByteSource) (content : Bytes) : Prop where
  length : source.length = content.length
  readFrom : ∀ start ≤ content.length, source.readFrom start = .ok (content.drop start)
  readRange : ∀ start count, start + count ≤ content.length →
    source.readRange start count = .ok ((content.drop start).take count)

namespace ByteSource

/-- Bytes in memory hold themselves. -/
theorem memory_holds (content : Bytes) : (memory content).Holds content where
  length := rfl
  readFrom _ inside := if_neg (Nat.not_lt_of_le inside)
  readRange _ _ inside := if_neg (Nat.not_lt_of_le inside)

/-- A file holds its content. -/
theorem file_holds (content : Bytes) : (file content).Holds content where
  length := rfl
  readFrom _ _ := rfl
  readRange start count inside := by
    apply if_pos
    rw [List.length_take, List.length_drop]
    omega

/-- A source that holds a content fills a buffer from it. -/
theorem Holds.readExactly {source : ByteSource} {content : Bytes} (holds : source.Holds content)
    {start count : Nat} (inside : start + count ≤ content.length) :
    source.readExactly start count = .ok ((content.drop start).take count) := by
  have whole : ((content.drop start).take count).length = count := by
    rw [List.length_take, List.length_drop]
    omega
  rw [ByteSource.readExactly, holds.readFrom start (by omega)]
  exact if_pos whole

end ByteSource

namespace FileMetadata

variable {source : ByteSource} {content : Bytes}

/-- A source without a trailer asks for one. -/
theorem load_of_short (holds : source.Holds content) (short : content.length < trailerSize) :
    load source = .error (.fault (.needMoreData trailerSize)) := by
  rw [load, loading, holds.length, if_pos short]
  rfl

/-- A source with a trailer gives the footer that the trailer tells, or asks for it. -/
theorem load_of_long (holds : source.Holds content) (long : trailerSize ≤ content.length) :
    load source =
      match footerLength (content.rtake trailerSize) with
      | .error cause => .error (.fault cause)
      | .ok length =>
        if content.length < trailerSize + length then
          .error (.fault (.needMoreData (trailerSize + length)))
        else decode ((content.rtake (trailerSize + length)).take length) := by
  have trailer : source.readExactly (content.length - trailerSize) trailerSize =
      .ok (content.rtake trailerSize) := by
    rw [holds.readExactly (by omega), List.rtake, List.take_of_length_le]
    rw [List.length_drop]
    omega
  simp only [load, loading, holds.length, if_neg (Nat.not_lt_of_le long), Loading.run, trailer,
    liftM_ok_bind]
  cases footerLength (content.rtake trailerSize) with
  | error cause => rfl
  | ok length =>
      simp only [Loading.run]
      by_cases cut : content.length < trailerSize + length
      · rw [if_pos cut, if_pos cut]
        rfl
      · have footer := holds.readRange (content.length - (trailerSize + length)) length (by omega)
        simp only [if_neg cut, Loading.run, footer, liftM_ok_bind]
        rfl

end FileMetadata

end ParquetFooter
