import ParquetFooter.Assembly.RunningSum
import Mathlib.Algebra.Ring.Int.Defs

/-! # Sums that are kept in range

A running sum that exists is the exact sum. There is none exactly when some sum on the way leaves
the 64 bit range, which for terms that are not negative comes down to the total.
-/

namespace ParquetFooter

/-- A sum that is in range is the exact sum. -/
theorem toInt_of_addInRange? {left right sum : Int64} (added : addInRange? left right = some sum) :
    sum.toInt = left.toInt + right.toInt := by
  unfold addInRange? at added
  dsimp only at added
  split at added
  next inRange =>
    have lowest : Int64.minValue.toInt = -2 ^ 63 := by decide
    have highest : Int64.maxValue.toInt = 2 ^ 63 - 1 := by decide
    obtain rfl := Option.some.inj added
    exact Int64.toInt_ofInt_of_le (by omega) (by omega)
  next => exact nomatch added

/-- Where no sum on the way leaves the range, nothing wraps around. -/
theorem toInt_of_foldlM_addInRange? {terms : List Int64} {start total : Int64}
    (summed : terms.foldlM addInRange? start = some total) :
    total.toInt = start.toInt + (terms.map Int64.toInt).sum := by
  induction terms generalizing start with
  | nil =>
      obtain rfl := Option.some.inj summed
      exact (Int.add_zero _).symm
  | cons term terms ih =>
      obtain ⟨next, added, summed⟩ := Option.bind_eq_some_iff.mp summed
      rw [ih summed, toInt_of_addInRange? added, List.map_cons, List.sum_cons, Int.add_assoc]

/-- A running sum that stays in range is the exact sum. -/
theorem toInt_of_runningSum? {terms : List Int64} {total : Int64}
    (summed : runningSum? terms = some total) : total.toInt = (terms.map Int64.toInt).sum := by
  rw [toInt_of_foldlM_addInRange? summed, Int64.toInt_zero, Int.zero_add]

/-- An integer is the value of some 64 bit integer. -/
def InRange (value : Int) : Prop :=
  Int64.minValue.toInt ≤ value ∧ value ≤ Int64.maxValue.toInt

instance (value : Int) : Decidable (InRange value) := inferInstanceAs (Decidable (_ ∧ _))

/-- Every number of 64 bits is in range. -/
theorem inRange_toInt (value : Int64) : InRange value.toInt :=
  ⟨value.minValue_le_toInt, value.toInt_le⟩

/-- There is no sum exactly where the exact one is out of range. -/
theorem addInRange?_eq_none_iff {left right : Int64} :
    addInRange? left right = none ↔ ¬ InRange (left.toInt + right.toInt) := by
  unfold addInRange? InRange
  dsimp only
  split
  next inRange => exact iff_of_false nofun (not_not_intro inRange)
  next outside => exact iff_of_true rfl outside

/-- Some sum on the way through the terms leaves the range. -/
def Overflows (terms : List Int64) : Prop :=
  ∃ front, front <+: terms ∧ ¬ InRange (front.map Int64.toInt).sum

/-- There is no running sum exactly where that of some front is out of range. -/
theorem foldlM_addInRange?_eq_none_iff {terms : List Int64} {start : Int64} :
    terms.foldlM addInRange? start = none ↔
      ∃ front, front <+: terms ∧ ¬ InRange (start.toInt + (front.map Int64.toInt).sum) := by
  induction terms generalizing start with
  | nil =>
      apply iff_of_false nofun
      rintro ⟨front, before, outside⟩
      obtain rfl := List.prefix_nil.mp before
      rw [List.map_nil, List.sum_nil, Int.add_zero] at outside
      exact outside (inRange_toInt start)
  | cons term terms ih =>
      rw [List.foldlM_cons]
      cases added : addInRange? start term with
      | none =>
          have outside := addInRange?_eq_none_iff.mp added
          refine iff_of_true rfl ⟨[term], List.prefix_append [term] terms, ?_⟩
          rwa [List.map_singleton, List.sum_singleton]
      | some next =>
          have exactly := toInt_of_addInRange? added
          refine Iff.trans ih ?_
          constructor
          · rintro ⟨front, before, outside⟩
            refine ⟨term :: front, (List.prefix_cons_inj term).mpr before, ?_⟩
            rwa [List.map_cons, List.sum_cons, ← Int.add_assoc, ← exactly]
          · rintro ⟨front, before, outside⟩
            -- The empty front is not to blame: its sum is the start, which is a word.
            rcases List.prefix_cons_iff.mp before with rfl | ⟨front, rfl, behind⟩
            · rw [List.map_nil, List.sum_nil, Int.add_zero] at outside
              exact absurd (inRange_toInt start) outside
            · rw [List.map_cons, List.sum_cons, ← Int.add_assoc, ← exactly] at outside
              exact ⟨front, behind, outside⟩

/-- There is no running sum exactly when a sum on the way leaves the range. -/
theorem runningSum?_eq_none_iff {terms : List Int64} :
    runningSum? terms = none ↔ Overflows terms := by
  unfold runningSum? Overflows
  simp only [foldlM_addInRange?_eq_none_iff, Int64.toInt_zero, Int.zero_add]

instance (terms : List Int64) : Decidable (Overflows terms) :=
  decidable_of_iff _ runningSum?_eq_none_iff

/-- A sum of terms that are not negative is not negative. -/
theorem sum_nonneg {terms : List Int64} (nonneg : ∀ term ∈ terms, 0 ≤ term) :
    0 ≤ (terms.map Int64.toInt).sum := by
  induction terms with
  | nil => exact Int.le_refl 0
  | cons term terms ih =>
      obtain ⟨first, others⟩ := List.forall_mem_cons.mp nonneg
      rw [Int64.le_iff_toInt_le, Int64.toInt_zero] at first
      rw [List.map_cons, List.sum_cons]
      exact Int.add_nonneg first (ih others)

/-- Sums of terms that are not negative only grow, so the last one decides. -/
theorem overflows_iff_of_nonneg {terms : List Int64} (nonneg : ∀ term ∈ terms, 0 ≤ term) :
    Overflows terms ↔ ¬ InRange (terms.map Int64.toInt).sum := by
  constructor
  · rintro ⟨front, ⟨behind, rfl⟩, outside⟩ ⟨-, inside⟩
    obtain ⟨first, others⟩ := List.forall_mem_append.mp nonneg
    have grown := sum_nonneg others
    rw [List.map_append, List.sum_append] at inside
    refine outside ⟨?_, by omega⟩
    exact Int.le_trans (by decide) (sum_nonneg first)
  · exact fun outside => ⟨terms, List.prefix_rfl, outside⟩

end ParquetFooter
