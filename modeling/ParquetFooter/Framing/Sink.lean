import ParquetFooter.Fault
import ParquetFooter.Bytes

/-!
# Sinks

Where bytes are written to. A sink may have room for a limited number of bytes; a write that does
not fit fails after as many bytes as the sink still takes.
-/

namespace ParquetFooter

/-- Takes bytes, up to a limit if it has one. -/
structure Sink where
  /-- The bytes taken so far. -/
  content : Bytes
  /-- How many bytes still fit, when that is limited. -/
  room : Option Nat
deriving DecidableEq, Repr

/-- Writes to a sink, which keeps what it took also when writing stops with a fault. -/
abbrev Writing (α : Type) := ExceptT Fault (StateM Sink) α

namespace Sink

/-- An empty sink without limit. -/
def growing : Sink := ⟨[], none⟩

/-- An empty sink with room for a number of bytes. -/
def limited (room : Nat) : Sink := ⟨[], some room⟩

/-- Takes all of some bytes, or as many as fit and the fault that the others do not. -/
def accept (bytes : Bytes) (sink : Sink) : Except Fault Unit × Sink :=
  match sink.room with
  | none => (.ok (), { sink with content := sink.content ++ bytes })
  | some room =>
    if bytes.length ≤ room then (.ok (), ⟨sink.content ++ bytes, some (room - bytes.length)⟩)
    else (.error (.foreign .sinkFull), ⟨sink.content ++ bytes.take room, some 0⟩)

/-- Writes some bytes. -/
def write (bytes : Bytes) : Writing Unit := ExceptT.mk fun sink => accept bytes sink

end Sink

end ParquetFooter
