import ParquetFooter.Fault

/-!
# Readers

A `Reader` takes a value off the front of a byte string and gives the bytes behind it, or a fault.
`Reader.byte` and `Reader.take` are the only ones that touch the input; the others are built from
them. A repetition is bounded by a count, which may be far larger than the input: it ends with the
first fault.
-/

namespace ParquetFooter

/-- Takes a value off the front of a byte string. -/
abbrev Reader (α : Type) := StateT Bytes (Except Fault) α

namespace Reader

variable {σ α : Type}

/-- The second of two readers reads what the first one leaves. -/
theorem bind_apply {σ α β : Type} (reader : StateT σ (Except Fault) α)
    (next : α → StateT σ (Except Fault) β) (input : σ) :
    (reader >>= next) input =
      match reader input with
      | .ok (value, rest) => next value rest
      | .error fault => .error fault := by
  simp only [bind, StateT.bind]
  cases reader input <;> rfl

@[simp] theorem pure_apply {σ α : Type} (value : α) (input : σ) :
    (pure value : StateT σ (Except Fault) α) input = .ok (value, input) := rfl

/-- Stops with a fault. -/
def fail (fault : Fault) : Reader α := fun _ => .error fault

/-- The next byte. -/
def byte : Reader UInt8
  | [] => .error .endOfInput
  | first :: rest => .ok (first, rest)

/-- The next `count` bytes. -/
def take (count : Nat) : Reader Bytes := fun input =>
  let (taken, rest) := input.splitAt count
  if taken.length = count then .ok (taken, rest) else .error .endOfInput

/-- Bytes in front of others can be taken off. -/
theorem take_append (taken rest : Bytes) :
    take taken.length (taken ++ rest) = .ok (taken, rest) := by
  simp [take, List.splitAt_eq]

/-- Continues with the result of a check, or stops with its fault. -/
def ofExcept : Except Fault α → Reader α
  | .ok value => pure value
  | .error fault => fail fault

/-- Puts `count` values in front of the ones already read, which are held last first. The input
may be of any kind. -/
def collect (reader : StateT σ (Except Fault) α) : Nat → List α → StateT σ (Except Fault) (List α)
  | 0, read => pure read.reverse
  | count + 1, read => do
    let value ← reader
    collect reader count (value :: read)

/-- One more value is read before the others. -/
theorem collect_succ (reader : StateT σ (Except Fault) α) (count : Nat) (read : List α)
    (input : σ) :
    collect reader (count + 1) read input =
      match reader input with
      | .ok (value, rest) => collect reader count (value :: read) rest
      | .error fault => .error fault :=
  bind_apply reader _ input

/-- The next `count` values. -/
def times (reader : StateT σ (Except Fault) α) (count : Nat) : StateT σ (Except Fault) (List α) :=
  collect reader count []

/-- Steps over `count` values. -/
def skipTimes (reader : Reader Unit) : Nat → Reader Unit
  | 0 => pure ()
  | count + 1 => do
    reader
    skipTimes reader count

end Reader

end ParquetFooter
