import ParquetFooter.Text.UppercaseData

/-!
# Upper casing

`uppercase` replaces each character by its full capital form, which may be several characters long.
The form of a character does not depend on the characters around it or on a language.
-/

namespace ParquetFooter.Uppercase

/-- The code points of the capital form of a character. -/
def capitals (code : Nat) : List Nat :=
  match expansions.lookup code with
  | some codes => codes
  | none =>
    match runs.find? (·.contains code) with
    | some run => [(code + run.offset).toNat]
    | none => [code]

end ParquetFooter.Uppercase

namespace ParquetFooter

/-- A text in capitals. -/
def uppercase (text : String) : String :=
  String.ofList (text.toList.flatMap fun letter =>
    (Uppercase.capitals letter.toNat).map Char.ofNat)

end ParquetFooter
