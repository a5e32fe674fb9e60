import ParquetFooter.Proofs.Assembly.Slots

/-! # Calls that fail

A call to a row group that is answered with a fault leaves the record and the next column as they
were. When it asked for a column behind the last one, nothing changes at all, and calls that follow
cannot tell that it was made. When it was a finish, the row group is closed; and a row group that is
closed answers every call with the same fault and never changes again.
-/

namespace ParquetFooter

open Record Calls

namespace RowGroupAssembly

/-- What calls that fail leave of a row group. -/
structure FailsCleanly (schema : Schema) (assembly : RowGroupAssembly) : Prop where
  kept : ∀ call fault, (assembly.step call).1 = .error fault →
    ∃ stage, (assembly.step call).2 = { assembly with stage := stage }
  unnoticed : ∀ call index bound,
    (assembly.step call).1 = .error (.indexOutOfBound index bound) →
      assembly.stage = .accepting ∧ index = schema.numColumns ∧ bound = schema.numColumns ∧
      ∀ later, after step assembly (call :: later) = after step assembly later ∧
        answers step assembly (call :: later) =
          .error (.indexOutOfBound index bound) :: answers step assembly later
  rejected : assembly.stage = .accepting → ∀ written fault,
    (assembly.step (.finish written)).1 = .error fault →
      (assembly.step (.finish written)).2 = { assembly with stage := .rejected }
  frozen : assembly.stage ≠ .accepting → ∀ later, after step assembly later = assembly ∧
    answers step assembly later =
      later.map fun _ => .error (.defect (.closedRowGroup assembly.stage))

variable {assembly : RowGroupAssembly}

/-- A closed row group gives every call the same answer. -/
theorem answers_of_closed (closed : assembly.stage ≠ .accepting) (calls : List RowGroupCall) :
    answers step assembly calls =
      calls.map fun _ => .error (.defect (.closedRowGroup assembly.stage)) := by
  induction calls with
  | nil => rfl
  | cons call calls ih => rw [answers, step_of_closed closed, ih, List.map_cons]

/-- A finish that fails closes the row group and changes nothing else. -/
theorem rejected_of_finish (accepting : assembly.stage = .accepting) {written : Int64}
    {fault : Fault} (failed : (assembly.step (.finish written)).1 = .error fault) :
    (assembly.step (.finish written)).2 = { assembly with stage := .rejected } := by
  cases checked : assembly.check written with
  | ok =>
      rw [step_finish_of_check accepting checked] at failed
      cases failed
  | error fault => rw [step_finish_of_fault accepting checked]

/-- A column that is not there is the one fault of a call that starts a column. -/
theorem step_column_of_error (accepting : assembly.stage = .accepting) {edits : List ChunkEdit}
    {summary? : Option ChunkSummary} {fault : Fault}
    (failed : (assembly.step (.column edits summary?)).1 = .error fault) :
    assembly.schema.leaves[assembly.nextColumn]? = none ∧
      assembly.step (.column edits summary?) =
        (.error (.indexOutOfBound assembly.nextColumn assembly.numColumns), assembly) := by
  cases here : assembly.schema.leaves[assembly.nextColumn]? with
  | none => exact ⟨rfl, step_column_of_full accepting here⟩
  | some leaf =>
      rw [step_column_of_leaf accepting here] at failed
      cases failed

/-- A call that fails changes nothing but the stage. -/
theorem kept_of_error {call : RowGroupCall} {fault : Fault}
    (failed : (assembly.step call).1 = .error fault) :
    ∃ stage, (assembly.step call).2 = { assembly with stage := stage } := by
  by_cases accepting : assembly.stage = .accepting
  · cases call with
    | column edits summary? =>
        rw [(step_column_of_error accepting failed).2]
        exact ⟨assembly.stage, rfl⟩
    | finish written => exact ⟨.rejected, rejected_of_finish accepting failed⟩
  · rw [step_of_closed accepting]
    exact ⟨assembly.stage, rfl⟩

/-- The fault of an index belongs to a call that starts a column behind the last one. -/
theorem step_of_indexOutOfBound {call : RowGroupCall} {index bound : Nat}
    (failed : (assembly.step call).1 = .error (.indexOutOfBound index bound)) :
    assembly.stage = .accepting ∧ assembly.schema.leaves[assembly.nextColumn]? = none ∧
      assembly.step call =
        (.error (.indexOutOfBound assembly.nextColumn assembly.numColumns), assembly) := by
  by_cases accepting : assembly.stage = .accepting
  · cases call with
    | column edits summary? => exact ⟨accepting, step_column_of_error accepting failed⟩
    | finish written =>
        rw [answer_finish accepting] at failed
        cases checked : assembly.check written with
        | ok =>
            rw [checked] at failed
            cases failed
        | error fault =>
            rw [checked] at failed
            rcases check_eq_error checked with ⟨actual, rfl⟩ | ⟨reason, rfl⟩
            · cases failed
            · cases failed
  · rw [step_of_closed accepting] at failed
    cases failed

/-- **Calls that fail change nothing else.** Whatever calls were made to a row group, those that
fail keep its record and its next column; a column behind the last one is refused as if it had never
been asked for; a finish that fails only closes the row group; and one that is closed stays as it
is, whatever calls follow. -/
theorem failsCleanly (schema : Schema) (policy : Policy) (numRows : Int64)
    (calls : List RowGroupCall) :
    (after step (start schema policy numRows) calls).FailsCleanly schema := by
  have stands : Stands schema policy numRows _ (after step (start schema policy numRows) calls) :=
    Stands.start.after calls
  refine ⟨fun call fault => kept_of_error, fun call index bound failed => ?_,
    fun accepting written fault => rejected_of_finish accepting,
    fun closed later => ⟨after_of_closed closed later, answers_of_closed closed later⟩⟩
  obtain ⟨accepting, full, unchanged⟩ := step_of_indexOutOfBound failed
  rw [stands.sameSchema, stands.nextColumn, List.getElem?_eq_none_iff] at full
  have length : (after step (start schema policy numRows) calls).numColumns = schema.numColumns :=
    stands.length_columns
  have last := Nat.le_antisymm stands.length_le full
  have numbers := failed
  rw [unchanged, stands.nextColumn, last, length] at numbers
  cases numbers
  refine ⟨accepting, rfl, rfl, fun later => ⟨?_, ?_⟩⟩
  · rw [after, List.foldl_cons, unchanged]
    rfl
  · rw [answers, failed, unchanged]

end RowGroupAssembly

end ParquetFooter
