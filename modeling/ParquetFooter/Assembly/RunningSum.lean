/-!
# Running sums

The sum of 64 bit integers, formed one by one: there is none as soon as one of the sums on the way
leaves the range.
-/

namespace ParquetFooter

/-- The sum of two integers, if it is in range. -/
def addInRange? (left right : Int64) : Option Int64 :=
  let sum := left.toInt + right.toInt
  if Int64.minValue.toInt ≤ sum ∧ sum ≤ Int64.maxValue.toInt then some (Int64.ofInt sum) else none

/-- The sum of some integers, if every sum on the way is in range. -/
def runningSum? (terms : List Int64) : Option Int64 := terms.foldlM addInRange? 0

end ParquetFooter
