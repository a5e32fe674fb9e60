import ParquetFooter.Reader

/-! # Reading an encoding off the input

A reader `Reads` some bytes as a value when it takes exactly these bytes off every input that starts
with them. Readers that are built from others read the concatenation of what their parts read, so a
round trip is proved part by part. In the other direction a successful reader is taken apart into
the successful runs of its parts.

A reader `Streams` when it does not look behind what it takes. Then more input changes nothing,
unless the reader came to the end of what there was. A fault of such a reader is a fault of the
content (`Fault.OfContent`): it never is about the source that the content came from.
-/

/-- A computation followed by another one succeeds when both do. -/
theorem Except.bind_eq_ok {ε α β : Type} {first : Except ε α} {next : α → Except ε β} {result : β} :
    (first >>= next) = .ok result ↔ ∃ value, first = .ok value ∧ next value = .ok result := by
  cases first with
  | error fault => exact ⟨nofun, nofun⟩
  | ok value =>
      constructor
      · exact fun run => ⟨value, rfl, run⟩
      · rintro ⟨_, ⟨⟩, run⟩
        exact run

/-- A computation followed by another one fails when one of them does. -/
theorem Except.bind_eq_error {ε α β : Type} {first : Except ε α} {next : α → Except ε β}
    {error : ε} :
    (first >>= next) = .error error ↔
      first = .error error ∨ ∃ value, first = .ok value ∧ next value = .error error := by
  cases first with
  | error cause =>
      refine ⟨fun run => .inl (congrArg Except.error (Except.error.inj run)), ?_⟩
      rintro (stopped | ⟨_, ⟨⟩, _⟩)
      exact congrArg Except.error (Except.error.inj stopped)
  | ok value =>
      refine ⟨fun run => .inr ⟨value, rfl, run⟩, ?_⟩
      rintro (⟨⟨⟩⟩ | ⟨_, ⟨⟩, run⟩)
      exact run

namespace ParquetFooter

/-- The bytes that were read are at fault: they end too early, they are wrong, or they use a feature
that is left out. -/
def Fault.OfContent : Fault → Prop
  | .shortfall .input | .defect _ | .unsupported _ | .foreign (.notUtf8 _) => True
  | _ => False

end ParquetFooter

namespace ParquetFooter.Reader

variable {σ α β : Type}

/-- The reader takes these bytes off every input that starts with them, and gives this value. -/
def Reads (reader : Reader α) (bytes : Bytes) (value : α) : Prop :=
  ∀ rest, reader (bytes ++ rest) = .ok (value, rest)

/-- A reader followed by another one succeeds when both do. -/
theorem bind_eq_ok {reader : StateT σ (Except Fault) α} {next : α → StateT σ (Except Fault) β}
    {input rest : σ} {value : β} :
    (reader >>= next) input = .ok (value, rest) ↔
      ∃ first middle, reader input = .ok (first, middle) ∧
        next first middle = .ok (value, rest) := by
  rw [bind_apply]
  cases run : reader input with
  | error fault => simp only [reduceCtorEq, false_and, exists_false]
  | ok result =>
      constructor
      · exact fun continued => ⟨result.1, result.2, rfl, continued⟩
      · rintro ⟨first, middle, same, continued⟩
        rwa [Except.ok.inj same]

/-- A reader followed by another one is at fault when one of them is. -/
theorem bind_eq_error {reader : StateT σ (Except Fault) α} {next : α → StateT σ (Except Fault) β}
    {input : σ} {fault : Fault} :
    (reader >>= next) input = .error fault ↔
      reader input = .error fault ∨
        ∃ first middle, reader input = .ok (first, middle) ∧
          next first middle = .error fault := by
  rw [bind_apply]
  cases run : reader input with
  | error cause =>
      constructor
      · exact fun stopped => .inl (congrArg Except.error (Except.error.inj stopped))
      · rintro (stopped | ⟨first, middle, same, continued⟩)
        · exact congrArg Except.error (Except.error.inj stopped)
        · exact nomatch same
  | ok result =>
      constructor
      · exact fun continued => .inr ⟨result.1, result.2, rfl, continued⟩
      · rintro (stopped | ⟨first, middle, same, continued⟩)
        · exact nomatch stopped
        · rwa [Except.ok.inj same]

namespace Reads

/-- Nothing is read as a value that is there already. -/
theorem pure (value : α) : Reads (Pure.pure value) [] value := fun _ => rfl

/-- Two readers in a row read what the first reads, followed by what the second reads. -/
theorem bind {reader : Reader α} {next : α → Reader β} {front back : Bytes} {first : α} {value : β}
    (head : Reads reader front first) (tail : Reads (next first) back value) :
    Reads (reader >>= next) (front ++ back) value := by
  intro rest
  rw [bind_apply, List.append_assoc, head]
  exact tail rest

/-- What follows a reader may read nothing more, and only look at the value. -/
theorem bind_nil {reader : Reader α} {next : α → Reader β} {bytes : Bytes} {first : α} {value : β}
    (head : Reads reader bytes first) (tail : Reads (next first) [] value) :
    Reads (reader >>= next) bytes value := by
  have whole := head.bind tail
  rwa [List.append_nil] at whole

/-- A value that is computed from what was read takes no more bytes. -/
theorem map {reader : Reader α} {bytes : Bytes} {first : α} (head : Reads reader bytes first)
    (next : α → β) : Reads (do return next (← reader)) bytes (next first) :=
  head.bind_nil (pure (next first))

/-- A byte is read as itself. -/
theorem byte (first : UInt8) : Reads Reader.byte [first] first := fun _ => rfl

/-- So many bytes are read as themselves. -/
theorem take (bytes : Bytes) : Reads (Reader.take bytes.length) bytes bytes :=
  take_append bytes

end Reads

/-- What was taken stood at the front of the input. -/
theorem take_eq_ok {count : Nat} {input taken rest : Bytes} :
    take count input = .ok (taken, rest) ↔ input = taken ++ rest ∧ taken.length = count := by
  constructor
  · intro run
    simp only [take, List.splitAt_eq] at run
    split at run
    next whole =>
      obtain ⟨rfl, rfl⟩ := Prod.mk.inj (Except.ok.inj run)
      exact ⟨(List.take_append_drop count input).symm, whole⟩
    next => cases run
  · rintro ⟨rfl, rfl⟩
    exact take_append taken rest

/-- Bytes cannot be taken off an input that has fewer, and for no other reason. -/
theorem eq_endOfInput_of_take {count : Nat} {input : Bytes} {fault : Fault}
    (run : take count input = .error fault) : fault = .endOfInput := by
  rw [take] at run
  dsimp only at run
  split at run
  · cases run
  · exact (Except.error.inj run).symm

/-- Values that were read before stand in front of the others. -/
theorem collect_apply (reader : StateT σ (Except Fault) α) (count : Nat) (read : List α)
    (input : σ) :
    collect reader count read input =
      match times reader count input with
      | .ok (values, rest) => .ok (read.reverse ++ values, rest)
      | .error fault => .error fault := by
  induction count generalizing read input with
  | zero => simp only [times, collect, pure_apply, List.reverse_nil, List.append_nil]
  | succ count ih =>
      rw [times, collect_succ, collect_succ]
      cases reader input with
      | error fault => rfl
      | ok result =>
          obtain ⟨value, rest⟩ := result
          simp only [ih (value :: read), ih [value]]
          cases times reader count rest with
          | error fault => rfl
          | ok result => simp

@[simp] theorem times_zero (reader : StateT σ (Except Fault) α) (input : σ) :
    times reader 0 input = .ok ([], input) := rfl

/-- A value is read first, and then the others. -/
theorem times_succ (reader : StateT σ (Except Fault) α) (count : Nat) :
    times reader (count + 1) = do
      let value ← reader
      let values ← times reader count
      return value :: values := by
  funext input
  rw [times, collect_succ, bind_apply]
  cases reader input with
  | error fault => rfl
  | ok result =>
      obtain ⟨value, rest⟩ := result
      simp only [collect_apply reader count [value], bind_apply]
      cases times reader count rest with
      | error fault => rfl
      | ok result => rfl

/-- A repetition succeeds when the first value and the others can be read. -/
theorem times_succ_eq_ok {reader : StateT σ (Except Fault) α} {count : Nat} {input rest : σ}
    {values : List α} :
    times reader (count + 1) input = .ok (values, rest) ↔
      ∃ value middle others, reader input = .ok (value, middle) ∧
        times reader count middle = .ok (others, rest) ∧ values = value :: others := by
  rw [times_succ, bind_eq_ok]
  constructor
  · rintro ⟨value, middle, head, tail⟩
    rw [bind_eq_ok] at tail
    obtain ⟨others, final, tail, same⟩ := tail
    obtain ⟨rfl, rfl⟩ := Prod.mk.inj (Except.ok.inj same)
    exact ⟨value, middle, others, head, tail, rfl⟩
  · rintro ⟨value, middle, others, head, tail, rfl⟩
    exact ⟨value, middle, head, bind_eq_ok.mpr ⟨others, rest, tail, rfl⟩⟩

/-- A repetition is at fault when the first reading is or the others are. -/
theorem times_succ_eq_error {reader : StateT σ (Except Fault) α} {count : Nat} {input : σ}
    {fault : Fault} :
    times reader (count + 1) input = .error fault ↔
      reader input = .error fault ∨
        ∃ value middle, reader input = .ok (value, middle) ∧
          times reader count middle = .error fault := by
  have listed (value : α) (middle : σ) :
      (do return value :: (← times reader count) : StateT σ (Except Fault) (List α)) middle =
        .error fault ↔ times reader count middle = .error fault := by
    rw [bind_eq_error]
    refine ⟨?_, .inl⟩
    rintro (stopped | ⟨_, _, -, ended⟩)
    · exact stopped
    · cases ended
  simp only [times_succ, bind_eq_error, listed]

/-- A repetition is at fault when one of the readings is. -/
theorem exists_of_times_eq_error {reader : StateT σ (Except Fault) α} {count : Nat} {input : σ}
    {fault : Fault} (run : times reader count input = .error fault) :
    ∃ middle, reader middle = .error fault := by
  induction count generalizing input with
  | zero => exact nomatch run
  | succ count ih =>
      rcases times_succ_eq_error.mp run with stopped | ⟨value, middle, -, others⟩
      · exact ⟨input, stopped⟩
      · exact ih others

/-- As many values are read as were asked for. -/
theorem length_of_times {reader : StateT σ (Except Fault) α} {count : Nat} {input rest : σ}
    {values : List α} (run : times reader count input = .ok (values, rest)) :
    values.length = count := by
  induction count generalizing input values with
  | zero =>
      obtain ⟨rfl, rfl⟩ := Prod.mk.inj (Except.ok.inj run)
      rfl
  | succ count ih =>
      obtain ⟨value, middle, others, _, tail, rfl⟩ := times_succ_eq_ok.mp run
      rw [List.length_cons, ih tail]

/-- What holds of every value that a reader gives holds of all that are read in a row. -/
theorem forall_mem_of_times {reader : StateT σ (Except Fault) α} {count : Nat} {input rest : σ}
    {values : List α} {good : α → Prop}
    (each : ∀ {input value rest}, reader input = .ok (value, rest) → good value)
    (run : times reader count input = .ok (values, rest)) : ∀ value ∈ values, good value := by
  induction count generalizing input values with
  | zero =>
      obtain ⟨rfl, rfl⟩ := Prod.mk.inj (Except.ok.inj run)
      exact List.forall_mem_nil _
  | succ count ih =>
      obtain ⟨value, middle, others, head, tail, rfl⟩ := times_succ_eq_ok.mp run
      exact List.forall_mem_cons.mpr ⟨each head, ih tail⟩

/-- Encodings in a row are read as the list of their values. -/
theorem Reads.times {reader : Reader α} {encode : α → Bytes} {values : List α}
    (each : ∀ value ∈ values, Reads reader (encode value) value) :
    Reads (Reader.times reader values.length) (values.flatMap encode) values := by
  induction values with
  | nil => exact fun _ => rfl
  | cons value values ih =>
      obtain ⟨head, tail⟩ := List.forall_mem_cons.mp each
      rw [List.length_cons, times_succ, List.flatMap_cons]
      exact head.bind ((ih tail).map (value :: ·))

/-- Encodings in a row are stepped over one by one. -/
theorem Reads.skipTimes {reader : Reader Unit} {encode : α → Bytes} {values : List α}
    (each : ∀ value ∈ values, Reads reader (encode value) ()) :
    Reads (Reader.skipTimes reader values.length) (values.flatMap encode) () := by
  induction values with
  | nil => exact fun _ => rfl
  | cons value values ih =>
      obtain ⟨head, tail⟩ := List.forall_mem_cons.mp each
      rw [List.length_cons, List.flatMap_cons]
      exact head.bind (ih tail)

/-- A reader streams when it does not look behind what it takes: what it takes off one input it
takes off every input, and its faults do not depend on what follows, except that the input may have
ended too early. -/
structure Streams (reader : Reader α) : Prop where
  /-- What was taken is read in the same way before any rest. -/
  ok : ∀ {input value rest}, reader input = .ok (value, rest) →
    ∃ taken, input = taken ++ rest ∧ Reads reader taken value
  /-- A fault that is not the end of the input stays when more follows. -/
  fault : ∀ {input fault}, reader input = .error fault → fault ≠ .endOfInput →
    ∀ more, reader (input ++ more) = .error fault
  /-- A fault is one of the content. -/
  content : ∀ {input fault}, reader input = .error fault → fault.OfContent

namespace Streams

/-- A value that is there already streams. -/
theorem pure (value : α) : Streams (Pure.pure value) where
  ok := by
    intro input found rest run
    obtain ⟨rfl, rfl⟩ := Prod.mk.inj (Except.ok.inj run)
    exact ⟨[], rfl, Reads.pure value⟩
  fault run := nomatch run
  content run := nomatch run

/-- A fault of the content streams. -/
theorem fail {fault : Fault} (content : fault.OfContent) :
    Streams (Reader.fail fault : Reader α) where
  ok run := nomatch run
  fault run _ _ := run
  content run := Except.error.inj run ▸ content

/-- A check that can only find faults of the content streams. -/
theorem ofExcept {outcome : Except Fault α}
    (content : ∀ fault, outcome = .error fault → fault.OfContent) :
    Streams (Reader.ofExcept outcome) := by
  cases outcome with
  | ok value => exact pure value
  | error fault => exact fail (content fault rfl)

/-- Two readers in a row stream when both do. -/
theorem bind {reader : Reader α} {next : α → Reader β} (head : Streams reader)
    (tail : ∀ value, Streams (next value)) : Streams (reader >>= next) where
  ok := by
    intro input value rest run
    obtain ⟨first, middle, run, continued⟩ := bind_eq_ok.mp run
    obtain ⟨front, rfl, headReads⟩ := head.ok run
    obtain ⟨back, rfl, tailReads⟩ := (tail first).ok continued
    exact ⟨front ++ back, (List.append_assoc _ _ _).symm, headReads.bind tailReads⟩
  fault := by
    intro input fault run early more
    rcases bind_eq_error.mp run with stopped | ⟨first, middle, run, continued⟩
    · exact bind_eq_error.mpr (.inl (head.fault stopped early more))
    · obtain ⟨front, rfl, headReads⟩ := head.ok run
      rw [List.append_assoc]
      have stopped := (tail first).fault continued early more
      exact bind_eq_error.mpr (.inr ⟨first, _, headReads _, stopped⟩)
  content := by
    intro input fault run
    rcases bind_eq_error.mp run with stopped | ⟨first, middle, -, continued⟩
    · exact head.content stopped
    · exact (tail first).content continued

/-- What is made of a value does not look at the input. -/
theorem map {reader : Reader α} (head : Streams reader) (next : α → β) :
    Streams (do return next (← reader)) :=
  head.bind fun first => pure (next first)

/-- A byte streams. -/
theorem byte : Streams Reader.byte where
  ok := by
    intro input value rest run
    cases input with
    | nil => exact nomatch run
    | cons first others =>
        obtain ⟨rfl, rfl⟩ := Prod.mk.inj (Except.ok.inj run)
        exact ⟨[first], rfl, Reads.byte first⟩
  fault := by
    intro input fault run early
    cases input with
    | nil => exact absurd (Except.error.inj run).symm early
    | cons first others => exact nomatch run
  content := by
    intro input fault run
    cases input with
    | nil => exact Except.error.inj run ▸ trivial
    | cons first others => exact nomatch run

/-- A number of bytes streams. -/
theorem take (count : Nat) : Streams (Reader.take count) where
  ok := by
    intro input value rest run
    obtain ⟨rfl, rfl⟩ := take_eq_ok.mp run
    exact ⟨value, rfl, Reads.take value⟩
  fault run early := absurd (eq_endOfInput_of_take run) early
  content run := eq_endOfInput_of_take run ▸ trivial

/-- What is all of some input is read in the same way before any rest. -/
theorem reads {reader : Reader α} (streams : Streams reader) {bytes : Bytes} {value : α}
    (whole : reader bytes = .ok (value, [])) : Reads reader bytes value := by
  obtain ⟨taken, same, reads⟩ := streams.ok whole
  rw [List.append_nil] at same
  rwa [same]

/-- Values in a row stream when each does. -/
theorem times {reader : Reader α} (each : Streams reader) (count : Nat) :
    Streams (Reader.times reader count) := by
  induction count with
  | zero => exact pure []
  | succ count ih =>
      rw [times_succ]
      exact each.bind fun value => ih.map (value :: ·)

theorem skipTimes {reader : Reader Unit} (each : Streams reader) (count : Nat) :
    Streams (Reader.skipTimes reader count) := by
  induction count with
  | zero => exact pure ()
  | succ count ih => exact each.bind fun _ => ih

end Streams

end ParquetFooter.Reader
