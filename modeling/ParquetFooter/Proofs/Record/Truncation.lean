import ParquetFooter.Proofs.Record.RoundTrip

/-! # Footers that are cut off

What is decoded from some bytes does not depend on what follows them, unless they end too early.
So a footer that was cut off anywhere is found to end too early, and one that was not cut off is
found.
-/

namespace ParquetFooter.Record.Footer

open Wire

/-- No footer is decoded for the same reason as none is read. -/
theorem decode_eq_error {bytes : Bytes} {fault : Fault} :
    decode bytes = .error fault ↔ codec.read bytes = .error fault := by
  constructor
  · intro refused
    rcases Except.bind_eq_error.mp refused with unread | ⟨_, -, ended⟩
    · exact unread
    · exact nomatch ended
  · intro unread
    exact Except.bind_eq_error.mpr (.inl unread)

/-- Where no footer is decoded, the bytes are at fault. -/
theorem content_of_decode {bytes : Bytes} {fault : Fault} (refused : decode bytes = .error fault) :
    fault.OfContent :=
  codec_lawful.streams.content (decode_eq_error.mp refused)

/-- More bytes change nothing, unless the bytes before ended too early. -/
theorem decode_append_of_ne_endOfInput {bytes : Bytes} (whole : decode bytes ≠ .error .endOfInput)
    (more : Bytes) : decode (bytes ++ more) = decode bytes := by
  cases decoded : decode bytes with
  | error fault =>
      rw [decoded] at whole
      have early : fault ≠ .endOfInput := fun same => whole (congrArg Except.error same)
      have refused := decode_eq_error.mp decoded
      exact decode_eq_error.mpr (codec_lawful.streams.fault refused early more)
  | ok result =>
      obtain ⟨taken, rest, rfl, -, others⟩ := exists_taken_of_decode decoded
      rw [List.append_assoc]
      exact others (rest ++ more)

/-- A part of the bytes that holds the footer gives it as well. -/
theorem decode_long_part {bytes part : Bytes} {footer : Footer} {length : Nat}
    (decoded : decode bytes = .ok (footer, length)) (front : part <+: bytes)
    (enough : length ≤ part.length) : decode part = .ok (footer, length) := by
  obtain ⟨taken, rest, rfl, rfl, others⟩ := exists_taken_of_decode decoded
  obtain ⟨behind, rfl⟩ := List.prefix_of_prefix_length_le (List.prefix_append taken rest) front
    enough
  exact others behind

/-- A part of the bytes that does not hold the footer ends too early. -/
theorem decode_short_part {bytes part : Bytes} {footer : Footer} {length : Nat}
    (decoded : decode bytes = .ok (footer, length)) (front : part <+: bytes)
    (short : part.length < length) : decode part = .error .endOfInput := by
  obtain ⟨behind, rfl⟩ := front
  by_contra whole
  -- A footer found in the part would be the one in all of the bytes, and take more than the part.
  rw [decode_append_of_ne_endOfInput whole] at decoded
  obtain ⟨taken, rest, rfl, rfl, -⟩ := exists_taken_of_decode decoded
  rw [List.length_append] at short
  omega

/-- **Decoding is stable, and a cut is the end of the input.** Unless the bytes end too early, more
bytes behind them change neither the footer and its length nor the fault. Of the bytes that a footer
was decoded from, every part that is shorter than the footer ends too early, and every other part
gives the same footer. -/
theorem decode_stable :
    (∀ bytes more, decode bytes ≠ .error .endOfInput → decode (bytes ++ more) = decode bytes) ∧
    ∀ bytes footer length, decode bytes = .ok (footer, length) → ∀ part, part <+: bytes →
      (part.length < length → decode part = .error .endOfInput) ∧
      (length ≤ part.length → decode part = .ok (footer, length)) := by
  refine ⟨fun bytes more whole => decode_append_of_ne_endOfInput whole more, ?_⟩
  intro bytes footer length decoded part front
  exact ⟨decode_short_part decoded front, decode_long_part decoded front⟩

/-- A footer without a schema stays refused, and the foreign footer is cut inside and behind its
end. -/
theorem decode_stable_sample :
    (decode [0x15, 0x02, 0x00] = .error (.defect (.missingField "schema")) ∧
      decode ([0x15, 0x02, 0x00] ++ [0x19]) = decode [0x15, 0x02, 0x00]) ∧
    (decode foreignBytes = .ok (⟨1, [], 0, [], none, none⟩, 11) ∧
      decode (foreignBytes.take 10) = .error .endOfInput ∧
      decode (foreignBytes.take 11) = .ok (⟨1, [], 0, [], none, none⟩, 11)) := by
  have refused : decode [0x15, 0x02, 0x00] = .error (.defect (.missingField "schema")) := rfl
  have decoded : decode foreignBytes = .ok (⟨1, [], 0, [], none, none⟩, 11) := rfl
  refine ⟨⟨refused, decode_stable.1 _ _ (by rw [refused]; exact nofun)⟩, decoded, ?_, ?_⟩
  · exact (decode_stable.2 _ _ _ decoded _ (List.take_prefix 10 _)).1 (by decide)
  · exact (decode_stable.2 _ _ _ decoded _ (List.take_prefix 11 _)).2 (by decide)

end ParquetFooter.Record.Footer
