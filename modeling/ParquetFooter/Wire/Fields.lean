import ParquetFooter.Wire.Header

/-!
# The fields of a record

A record is a sequence of fields, each with its header, up to a stop. `foldFields` walks over it
with a step for the value of each field. Every field takes at least the byte of its header, so the
input itself bounds the number of fields: `foldFieldsFor` is given a list at least as long as the
input, and takes one entry off it for every field. The list runs out only behind the end of the
input.
-/

namespace ParquetFooter.Wire

variable {σ : Type}

/-- Walks over the fields after one with id `last`, at most one for each entry of `clock`. -/
def foldFieldsFor (step : σ → FieldHeader → Reader σ) : Bytes → Int16 → σ → Reader σ
  | [], _, _ => Reader.fail .endOfInput
  | _ :: clock, last, state => do
    let header ← FieldHeader.read last
    if header.type = .stop then return state
    else
      let state ← step state header
      foldFieldsFor step clock header.id state

/-- Walks over the fields of a record up to its stop. -/
def foldFields (step : σ → FieldHeader → Reader σ) (start : σ) : Reader σ :=
  fun input => foldFieldsFor step input 0 start input

end ParquetFooter.Wire
