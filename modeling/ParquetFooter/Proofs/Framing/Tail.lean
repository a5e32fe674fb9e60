import ParquetFooter.Proofs.Framing.RoundTrip
import Mathlib.Logic.Function.Iterate

/-! # Loading from a held tail

A reader that holds only the last bytes of a file loads from these. What loading looks at are the
`needed` last bytes of the content, and these are told by the trailer alone. So a held tail that is
long enough gives what the file gives, and one that is too short is told how many bytes to fetch: a
trailer first, and then what the trailer tells. With these fetched the reader has what it needs, or
the file itself is too short.
-/

namespace ParquetFooter.FileMetadata

open Record

variable {source : ByteSource} {content held : Bytes} {count : Nat}

/-- How many of the last bytes of a content are looked at. -/
def needed (content : Bytes) : Nat :=
  if content.length < trailerSize then trailerSize
  else
    match footerLength (content.rtake trailerSize) with
    | .error _ => trailerSize
    | .ok length => trailerSize + length

/-- What the bytes that are looked at hold. -/
def ofEnding (ending : Bytes) : Except Failure FileMetadata := do
  let length ← footerLength (ending.rtake trailerSize)
  decode (ending.take length)

/-- A trailer is always looked at. -/
theorem trailerSize_le_needed (content : Bytes) : trailerSize ≤ needed content := by
  unfold needed
  split
  next => exact Nat.le_refl _
  next =>
    split
    next => exact Nat.le_refl _
    next => exact Nat.le_add_right _ _

/-- Of a content without a trailer only a trailer is needed. -/
theorem needed_of_short (short : content.length < trailerSize) : needed content = trailerSize :=
  if_pos short

/-- The trailer tells how many bytes are needed, and every tail that has it tells the same. -/
theorem needed_of_suffix (suffix : held <:+ content) (long : trailerSize ≤ held.length) :
    needed content = needed held := by
  have whole : trailerSize ≤ content.length := Nat.le_trans long suffix.length_le
  unfold needed
  rw [if_neg (Nat.not_lt_of_le whole), if_neg (Nat.not_lt_of_le long), suffix.rtake_eq long]

/-- A tail tells how many bytes are needed, or it has no trailer. -/
theorem needed_eq_or (suffix : held <:+ content) :
    needed content = needed held ∨ held.length < trailerSize ∧ needed held = trailerSize := by
  rcases Nat.lt_or_ge held.length trailerSize with short | long
  · exact .inr ⟨short, needed_of_short short⟩
  · exact .inl (needed_of_suffix suffix long)

/-- Where a tail tells of more bytes than the content has, it tells what the content does. -/
theorem needed_of_lt (suffix : held <:+ content) (beyond : content.length < needed held) :
    needed content = needed held := by
  rcases needed_eq_or suffix with told | ⟨_, only⟩
  · exact told
  · rw [only] at beyond ⊢
    exact needed_of_short beyond

/-- Loading looks at the last bytes that are needed, or asks for them. -/
theorem load_eq (holds : source.Holds content) :
    load source =
      if content.length < needed content then .error (.fault (.needMoreData (needed content)))
      else ofEnding (content.rtake (needed content)) := by
  by_cases short : content.length < trailerSize
  · rw [load_of_short holds short, needed_of_short short, if_pos short]
  · have trailer : (content.rtake (needed content)).rtake trailerSize = content.rtake trailerSize :=
      List.rtake_rtake_of_le (trailerSize_le_needed content)
    rw [load_of_long holds (Nat.le_of_not_lt short), ofEnding, trailer]
    cases told : footerLength (content.rtake trailerSize) with
    | error cause =>
        have only : needed content = trailerSize := by rw [needed, if_neg short, told]
        rw [only, if_neg short]
        rfl
    | ok length =>
        have both : needed content = trailerSize + length := by rw [needed, if_neg short, told]
        rw [both]
        rfl

/-- Where all bytes are there that are needed, none are asked for. -/
theorem ofEnding_ne_needMoreData (ending : Bytes) (count : Nat) :
    ofEnding ending ≠ .error (.fault (.needMoreData count)) := by
  intro asks
  rcases Except.bind_eq_error.mp asks with unread | ⟨length, -, undecoded⟩
  · have refused := liftM_fault_eq_fault.mp unread
    unfold footerLength at refused
    split at refused
    next => exact nomatch refused
    next => exact nomatch refused
  · exact content_of_decode undecoded

/-- Loading asks for bytes when it does not have those that it needs, and it asks for these. -/
theorem load_eq_needMoreData : load (.memory held) = .error (.fault (.needMoreData count)) ↔
    held.length < count ∧ count = needed held := by
  rw [load_eq (ByteSource.memory_holds held)]
  by_cases cut : held.length < needed held
  · rw [if_pos cut]
    constructor
    · intro asks
      cases asks
      exact ⟨cut, rfl⟩
    · intro ⟨_, same⟩
      rw [same]
  · rw [if_neg cut]
    constructor
    · intro asks
      exact (ofEnding_ne_needMoreData _ _ asks).elim
    · intro ⟨less, same⟩
      exact (cut (same ▸ less)).elim

/-- A tail with the bytes that it says are needed gives what the content gives. -/
theorem load_of_suffix (suffix : held <:+ content) (enough : needed held ≤ held.length) :
    load (.memory content) = load (.memory held) := by
  have long := Nat.le_trans (trailerSize_le_needed held) enough
  have same := needed_of_suffix suffix long
  have whole := Nat.le_trans enough suffix.length_le
  rw [load_eq (ByteSource.memory_holds content), load_eq (ByteSource.memory_holds held), same,
    if_neg (Nat.not_lt_of_le enough), if_neg (Nat.not_lt_of_le whole), suffix.rtake_eq enough]

/-- The held bytes are an end of the content, with all bytes that are needed of it or all that it
has. -/
structure Covers (content held : Bytes) : Prop where
  suffix : held <:+ content
  enough : min content.length (needed content) ≤ held.length

/-- Bytes that cover a content give what the content gives. -/
theorem load_of_covers (covers : Covers content held) :
    load (.memory held) = load (.memory content) := by
  have enough := covers.enough
  by_cases cut : content.length < needed content
  · have whole : content.length ≤ held.length := by omega
    rw [covers.suffix.eq_of_length_le whole]
  · have long : trailerSize ≤ held.length := by
      have atLeast := trailerSize_le_needed content
      omega
    apply (load_of_suffix covers.suffix ?_).symm
    rw [← needed_of_suffix covers.suffix long]
    omega

/-- The bytes that a reader holds after it has fetched those that loading asked for, if it did. -/
def refetch (content held : Bytes) : Bytes :=
  match load (.memory held) with
  | .error (.fault (.needMoreData count)) => content.rtake count
  | _ => held

/-- The needed bytes are fetched where they are not held. -/
theorem refetch_eq (content held : Bytes) :
    refetch content held =
      if held.length < needed held then content.rtake (needed held) else held := by
  unfold refetch
  split
  next count asked =>
    obtain ⟨less, rfl⟩ := load_eq_needMoreData.mp asked
    rw [if_pos less]
  next settled =>
    rw [if_neg]
    intro less
    exact settled _ (load_eq_needMoreData.mpr ⟨less, rfl⟩)

/-- What is fetched is an end of the content. -/
theorem refetch_suffix (suffix : held <:+ content) : refetch content held <:+ content := by
  rw [refetch_eq]
  split
  next => exact List.drop_suffix _ _
  next => exact suffix

/-- After a fetch all bytes are held that were said to be needed, if there are so many. -/
theorem needed_le_length_refetch (content held : Bytes) :
    min content.length (needed held) ≤ (refetch content held).length := by
  rw [refetch_eq]
  split
  next =>
    rw [List.rtake, List.length_drop]
    omega
  next => omega

/-- One refetch is enough for a reader that holds the trailer, or all that there is of it. -/
theorem covers_refetch (suffix : held <:+ content)
    (trailer : min content.length trailerSize ≤ held.length) :
    Covers content (refetch content held) where
  suffix := refetch_suffix suffix
  enough := by
    have same : needed content = needed held := by
      by_cases long : trailerSize ≤ held.length
      · exact needed_of_suffix suffix long
      · rw [suffix.eq_of_length_le (by omega)]
    rw [same]
    exact needed_le_length_refetch content held

/-- The first refetch gets the trailer, the second one what it tells, and others get nothing. -/
theorem covers_refetched (suffix : held <:+ content) {rounds : Nat} (twice : 2 ≤ rounds) :
    Covers content ((refetch content)^[rounds] held) := by
  induction rounds, twice using Nat.le_induction with
  | base =>
      apply covers_refetch (refetch_suffix suffix)
      have first := needed_le_length_refetch content held
      have atLeast := trailerSize_le_needed held
      omega
  | succ rounds _ covers =>
      rw [Function.iterate_succ_apply']
      apply covers_refetch covers.suffix
      have enough := covers.enough
      have atLeast := trailerSize_le_needed content
      omega

/-- A trailer alone is not enough, but for an empty footer. -/
theorem load_trailer {word : UInt32} (footer : 0 < word.toNat) :
    load (.memory (littleEndian word ++ magic)) =
      .error (.fault (.needMoreData (trailerSize + word.toNat))) := by
  have whole : (littleEndian word ++ magic).rtake trailerSize = littleEndian word ++ magic := rfl
  have long : ¬ (littleEndian word ++ magic).length < trailerSize := Nat.lt_irrefl 8
  have needs : needed (littleEndian word ++ magic) = trailerSize + word.toNat := by
    rw [needed, if_neg long, whole, footerLength_littleEndian]
  exact load_eq_needMoreData.mpr ⟨Nat.lt_add_of_pos_right footer, needs.symm⟩

/-- The end of a file ends in the length of its footer and the magic bytes. -/
theorem trailer_suffix_ending (metadata : FileMetadata) :
    littleEndian (UInt32.ofNat metadata.encode.length) ++ magic <:+ metadata.ending := by
  rw [ending, List.append_assoc]
  exact List.suffix_append _ _

/-- **A tail is enough, or more bytes are asked for.** What is loaded from the last bytes of a
content, when it is not a demand for more, is what is loaded from the content. A demand exceeds what
was held. When the content has as many bytes, its tail of that length is demanding again only if it
is a trailer, and then for more than a trailer; when it has not, the content is as demanding. So a
reader that fetches what is demanded has the answer of the content after two fetches. -/
theorem load_tail (suffix : held <:+ content) :
    load (.file content) = load (.memory content) ∧
    ((∀ count, load (.memory held) ≠ .error (.fault (.needMoreData count))) →
      load (.memory content) = load (.memory held)) ∧
    (∀ count, load (.memory held) = .error (.fault (.needMoreData count)) →
      held.length < count ∧
      (count ≤ content.length → ∀ tail, tail <:+ content → tail.length = count →
        ∀ more, load (.memory tail) = .error (.fault (.needMoreData more)) →
          count = trailerSize ∧ trailerSize < more) ∧
      (content.length < count →
        load (.memory content) = .error (.fault (.needMoreData count)))) ∧
    ∀ rounds, 2 ≤ rounds →
      load (.memory ((refetch content)^[rounds] held)) = load (.memory content) := by
  refine ⟨?_, fun settled => ?_, fun count asked => ?_, fun rounds twice => ?_⟩
  · rw [load_eq (ByteSource.file_holds content), load_eq (ByteSource.memory_holds content)]
  · apply load_of_suffix suffix
    by_contra less
    exact settled _ (load_eq_needMoreData.mpr ⟨Nat.lt_of_not_le less, rfl⟩)
  · obtain ⟨less, rfl⟩ := load_eq_needMoreData.mp asked
    refine ⟨less, fun fetched tail part length more again => ?_, fun beyond => ?_⟩
    · obtain ⟨lacking, rfl⟩ := load_eq_needMoreData.mp again
      -- What the fetched tail needs is what the content needs. Had the held bytes had the trailer,
      -- they would have asked for that much, and the tail would not lack anything.
      have same := needed_of_suffix part (length ▸ trailerSize_le_needed held)
      have first := needed_eq_or suffix
      omega
    · exact load_eq_needMoreData.mpr ⟨beyond, (needed_of_lt suffix beyond).symm⟩
  · exact load_of_covers (covers_refetched suffix twice)

/-- The mixed footer behind the magic bytes is loaded from its own bytes, and after two fetches by a
reader that holds the last four bytes only. A file of four bytes is too short. -/
theorem load_tail_sample :
    (sample.ending <:+ magic ++ sample.ending ∧
      (∀ count, load (.memory sample.ending) ≠ .error (.fault (.needMoreData count))) ∧
      load (.memory (magic ++ sample.ending)) = load (.memory sample.ending)) ∧
    (magic <:+ magic ++ sample.ending ∧
      load (.memory magic) = .error (.fault (.needMoreData trailerSize)) ∧
      magic.length < trailerSize ∧
      ∃ tail, tail <:+ magic ++ sample.ending ∧ tail.length = trailerSize ∧
        ∃ more, load (.memory tail) = .error (.fault (.needMoreData more)) ∧ trailerSize < more ∧
          load (.memory ((refetch (magic ++ sample.ending))^[2] magic)) =
            load (.memory (magic ++ sample.ending))) ∧
    ([] <:+ magic ∧ load (.memory []) = .error (.fault (.needMoreData trailerSize)) ∧
      magic.length < trailerSize ∧
      load (.memory magic) = .error (.fault (.needMoreData trailerSize))) := by
  have small : sample.encode.length < 2 ^ 32 := by decide +kernel
  have footer : 0 < (UInt32.ofNat sample.encode.length).toNat := by decide +kernel
  have own : sample.ending <:+ magic ++ sample.ending := List.suffix_append _ _
  have trailer := (trailer_suffix_ending sample).trans own
  have last : magic <:+ magic ++ sample.ending := (List.suffix_append _ magic).trans trailer
  have settled (count : Nat) :
      load (.memory sample.ending) ≠ .error (.fault (.needMoreData count)) := by
    have loaded := load_ending ofRecord_sample Footer.sample_fits small
      (ByteSource.memory_holds ([] ++ sample.ending))
    rw [List.nil_append] at loaded
    rw [loaded]
    exact nofun
  have asked := load_trailer footer
  have short : load (.memory magic) = .error (.fault (.needMoreData trailerSize)) := rfl
  have empty : load (.memory []) = .error (.fault (.needMoreData trailerSize)) := rfl
  obtain ⟨less, again, -⟩ := (load_tail last).2.2.1 trailerSize short
  obtain ⟨-, more⟩ := again trailer.length_le _ trailer rfl _ asked
  refine ⟨⟨own, settled, (load_tail own).2.1 settled⟩, ⟨last, short, less, ?_⟩, ?_⟩
  · exact ⟨_, trailer, rfl, _, asked, more, (load_tail last).2.2.2 2 (Nat.le_refl 2)⟩
  · have beyond := ((load_tail List.nil_suffix).2.2.1 trailerSize empty).2.2 less
    exact ⟨List.nil_suffix, empty, less, beyond⟩

end ParquetFooter.FileMetadata
