import ParquetFooter.Assembly.File
import ParquetFooter.Proofs.Assembly.RunningSum

/-! # Runs of calls

Row groups and files are written by calls, which are carried out one after the other. `after` is the
assembly when all calls are carried out, `answers` is what they were answered, and `AllSucceed` says
that none of them was answered with a fault. A call to a row group has one of five outcomes, each
with an equation that says what comes of it; a finish closes the row group, and what fails its check
is the first of three things that is not as it should be.

Calls to the last row group of a file change that row group only. So every row group is what the
calls between one append and the next have made of it (`FileAssembly.rowGroups_after`).
-/

namespace ParquetFooter

open Record

namespace Calls

variable {σ κ α : Type} (step : σ → κ → Except Fault α × σ)

/-- The state after some calls. -/
def after (state : σ) (calls : List κ) : σ :=
  calls.foldl (fun state call => (step state call).2) state

/-- The answers to some calls. -/
def answers : σ → List κ → List (Except Fault α)
  | _, [] => []
  | state, call :: calls => (step state call).1 :: answers (step state call).2 calls

/-- No call is answered with a fault. -/
def AllSucceed : σ → List κ → Prop
  | _, [] => True
  | state, call :: calls =>
    (∃ answer, (step state call).1 = .ok answer) ∧ AllSucceed (step state call).2 calls

/-- Calls in two parts come to the same as all of them. -/
theorem after_append (state : σ) (first second : List κ) :
    after step state (first ++ second) = after step (after step state first) second :=
  List.foldl_append

/-- All calls succeed when those of both parts do. -/
theorem allSucceed_append (state : σ) (first second : List κ) :
    AllSucceed step state (first ++ second) ↔
      AllSucceed step state first ∧ AllSucceed step (after step state first) second := by
  induction first generalizing state with
  | nil => exact ⟨fun succeed => ⟨trivial, succeed⟩, And.right⟩
  | cons call first ih =>
      rw [List.cons_append, AllSucceed, AllSucceed, ih, and_assoc]
      rfl

end Calls

/-- The sizes of the chunks in the file, of those chunks that have metadata. -/
def Record.RowGroup.compressedSizes (record : RowGroup) : List Int64 :=
  record.columns.filterMap fun chunk => chunk.metadata.map (·.totalCompressedSize)

/-- The number of columns whose chunks have a positive offset, which is how many count as
finished. -/
def Record.RowGroup.finishedCount (record : RowGroup) : Nat :=
  record.columns.countP fun chunk => decide (0 < chunk.fileOffset)

/-- All chunks count as finished when each has a positive offset. -/
theorem Record.RowGroup.finishedCount_eq_iff (record : RowGroup) :
    record.finishedCount = record.columns.length ↔
      ∀ chunk ∈ record.columns, 0 < chunk.fileOffset := by
  unfold finishedCount
  simp only [List.countP_eq_length, decide_eq_true_eq]

namespace RowGroupAssembly

open Calls

variable {assembly : RowGroupAssembly} {edits : List ChunkEdit} {summary? : Option ChunkSummary}
  {written : Int64}

/-- While columns are left, the check tells how many were handed out. -/
theorem check_of_unstarted (unstarted : assembly.nextColumn ≠ assembly.numColumns) :
    assembly.check written = .error (.incomplete assembly.numColumns assembly.nextColumn) := by
  rw [check]
  exact if_pos unstarted

/-- When all columns were handed out, the check tells how many chunks count as finished. -/
theorem check_of_unfinished (started : assembly.nextColumn = assembly.numColumns)
    (unfinished : assembly.record.finishedCount ≠ assembly.numColumns) :
    assembly.check written =
      .error (.incomplete assembly.numColumns assembly.record.finishedCount) := by
  rw [check]
  refine (if_neg (not_not_intro started)).trans ?_
  exact if_pos unfinished

/-- When all columns were started and all are finished, the sizes decide. -/
theorem check_of_finished (started : assembly.nextColumn = assembly.numColumns)
    (finished : assembly.record.finishedCount = assembly.numColumns) :
    assembly.check written =
      match runningSum? assembly.record.compressedSizes with
      | none => .error (.inconsistent .sizeOverflow)
      | some total =>
        if total ≠ written then .error (.inconsistent (.sizeMismatch written total))
        else .ok () := by
  rw [check]
  refine (if_neg (not_not_intro started)).trans ?_
  refine (if_neg (not_not_intro finished)).trans ?_
  rfl

/-- The check is passed when all columns were started, all are finished, and their sizes add up to
the bytes that were written. -/
theorem check_eq_ok :
    assembly.check written = .ok () ↔
      assembly.nextColumn = assembly.numColumns ∧
      (∀ chunk ∈ assembly.record.columns, 0 < chunk.fileOffset) ∧
      runningSum? assembly.record.compressedSizes = some written := by
  rw [← assembly.record.finishedCount_eq_iff]
  by_cases started : assembly.nextColumn = assembly.numColumns
  · by_cases finished : assembly.record.finishedCount = assembly.numColumns
    · rw [check_of_finished started finished]
      have all : assembly.record.finishedCount = assembly.record.columns.length := finished
      cases runningSum? assembly.record.compressedSizes with
      | none => simp
      | some total =>
          by_cases same : total = written
          · simp [started, all, same]
          · simp [same]
    · rw [check_of_unfinished started finished]
      exact iff_of_false (by simp) fun fine => finished fine.2.1
  · rw [check_of_unstarted started]
    exact iff_of_false (by simp) fun fine => started fine.1

/-- When all columns count as finished, only the sizes can fail the check. -/
theorem inconsistent_of_check (started : assembly.nextColumn = assembly.numColumns)
    (finished : assembly.record.finishedCount = assembly.numColumns) {fault : Fault}
    (failed : assembly.check written = .error fault) : ∃ reason, fault = .inconsistent reason := by
  rw [check_of_finished started finished] at failed
  split at failed
  next => exact ⟨_, (Except.error.inj failed).symm⟩
  next total summed =>
    by_cases same : total = written
    · rw [if_neg (not_not_intro same)] at failed
      cases failed
    · rw [if_pos same] at failed
      exact ⟨_, (Except.error.inj failed).symm⟩

/-- What fails the check is a column that is missing or a number that does not agree. -/
theorem check_eq_error {fault : Fault} (failed : assembly.check written = .error fault) :
    (∃ actual, fault = .incomplete assembly.numColumns actual) ∨
      ∃ reason, fault = .inconsistent reason := by
  by_cases started : assembly.nextColumn = assembly.numColumns
  · by_cases finished : assembly.record.finishedCount = assembly.numColumns
    · exact .inr (inconsistent_of_check started finished failed)
    · rw [check_of_unfinished started finished] at failed
      exact .inl ⟨_, (Except.error.inj failed).symm⟩
  · rw [check_of_unstarted started] at failed
    exact .inl ⟨_, (Except.error.inj failed).symm⟩

/-- A closed row group refuses every call and stays as it is. -/
theorem step_of_closed (closed : assembly.stage ≠ .accepting) (call : RowGroupCall) :
    assembly.step call = (.error (.defect (.closedRowGroup assembly.stage)), assembly) := by
  have refused : assembly.checkAccepting = .error (.defect (.closedRowGroup assembly.stage)) := by
    unfold checkAccepting
    cases stage : assembly.stage with
    | accepting => exact absurd stage closed
    | done => rfl
    | rejected => rfl
  cases call with
  | column edits summary? =>
      simp only [step, writeColumn, startColumn, refused]
      rfl
  | finish written =>
      simp only [step, finish, refused]
      rfl

/-- Calls to a row group that is closed change nothing. -/
theorem after_of_closed (closed : assembly.stage ≠ .accepting) (calls : List RowGroupCall) :
    after step assembly calls = assembly := by
  induction calls with
  | nil => rfl
  | cons call calls ih =>
      rw [after, List.foldl_cons, step_of_closed closed]
      exact ih

variable (accepting : assembly.stage = .accepting)
include accepting

/-- A row group that accepts calls is not closed. -/
theorem checkAccepting_eq_ok : assembly.checkAccepting = .ok () := by
  unfold checkAccepting
  rw [accepting]

/-- The next column is handed out, and its chunk is put in its slot as it was left. -/
theorem step_column_of_leaf {leaf : Leaf}
    (here : assembly.schema.leaves[assembly.nextColumn]? = some leaf) :
    assembly.step (.column edits summary?) =
      (.ok (some (.start assembly.policy leaf.toColumn)),
        assembly.putColumn
          ((ChunkAssembly.start assembly.policy leaf.toColumn).complete edits summary?).chunk) := by
  have started : assembly.startColumn = .ok (.start assembly.policy leaf.toColumn) := by
    simp only [startColumn, checkAccepting_eq_ok accepting, here]
    rfl
  simp only [step, writeColumn, started]
  rfl

/-- Behind the last column none is handed out. -/
theorem step_column_of_full (full : assembly.schema.leaves[assembly.nextColumn]? = none) :
    assembly.step (.column edits summary?) =
      (.error (.indexOutOfBound assembly.nextColumn assembly.numColumns), assembly) := by
  have refused : assembly.startColumn =
      .error (.indexOutOfBound assembly.nextColumn assembly.numColumns) := by
    simp only [startColumn, checkAccepting_eq_ok accepting, full]
    rfl
  simp only [step, writeColumn, refused]
  rfl

/-- A finish that passes the check records the size, and the row group is done. -/
theorem step_finish_of_check (checked : assembly.check written = .ok ()) :
    assembly.step (.finish written) =
      (.ok none,
        { assembly with
          record := { assembly.record with totalByteSize := written }
          stage := .done }) := by
  simp only [step, finish, checkAccepting_eq_ok accepting, checked]
  rfl

/-- A finish that fails the check rejects the row group. -/
theorem step_finish_of_fault {fault : Fault} (unchecked : assembly.check written = .error fault) :
    assembly.step (.finish written) = (.error fault, { assembly with stage := .rejected }) := by
  simp only [step, finish, checkAccepting_eq_ok accepting, unchecked]
  rfl

/-- A finish answers what the check finds. -/
theorem answer_finish :
    (assembly.step (.finish written)).1 = (assembly.check written).map fun _ => none := by
  cases checked : assembly.check written with
  | ok => rw [step_finish_of_check accepting checked]; rfl
  | error fault => rw [step_finish_of_fault accepting checked]; rfl

theorem stage_column : (assembly.step (.column edits summary?)).2.stage = .accepting := by
  cases here : assembly.schema.leaves[assembly.nextColumn]? with
  | none => rwa [step_column_of_full accepting here]
  | some leaf => rwa [step_column_of_leaf accepting here]

/-- A finish closes the row group, so that it is the last call that counts. -/
theorem after_finish (calls : List RowGroupCall) :
    after step assembly (.finish written :: calls) = (assembly.step (.finish written)).2 := by
  change after step (assembly.step (.finish written)).2 calls = _
  apply after_of_closed
  cases checked : assembly.check written with
  | ok => rw [step_finish_of_check accepting checked]; exact Stage.noConfusion
  | error fault => rw [step_finish_of_fault accepting checked]; exact Stage.noConfusion

/-- A row group that accepts calls is done only through a finish that passes the check, which gives
it its size. -/
theorem exists_finish {calls : List RowGroupCall}
    (done : (after step assembly calls).stage = .done) :
    ∃ front written back, calls = front ++ .finish written :: back ∧
      ((after step assembly front).step (.finish written)).1 = .ok none ∧
      (after step assembly calls).record.totalByteSize = written := by
  induction calls generalizing assembly with
  | nil => cases accepting.symm.trans done
  | cons call calls ih =>
      cases call with
      | column edits summary? =>
          obtain ⟨front, written, back, rfl, answered, size⟩ := ih (stage_column accepting) done
          exact ⟨.column edits summary? :: front, written, back, rfl, answered, size⟩
      | finish written =>
          rw [after_finish accepting] at done ⊢
          cases checked : assembly.check written with
          | ok =>
              have closes := step_finish_of_check accepting checked
              exact ⟨[], written, calls, rfl, by rw [after, List.foldl_nil, closes], by rw [closes]⟩
          | error fault =>
              rw [step_finish_of_fault accepting checked] at done
              cases done

end RowGroupAssembly

open Calls

namespace FileAssembly

/-- A file with another last row group. -/
def withCurrent (assembly : FileAssembly) (rowGroup : RowGroupAssembly) : FileAssembly :=
  { assembly with current := some rowGroup }

/-- Calls to the last row group of a file are carried out by the row group. -/
theorem after_rowGroup (assembly : FileAssembly) (rowGroup : RowGroupAssembly)
    (calls : List RowGroupCall) :
    after step (assembly.withCurrent rowGroup) (calls.map .rowGroup) =
      assembly.withCurrent (after RowGroupAssembly.step rowGroup calls) := by
  induction calls generalizing rowGroup with
  | nil => rfl
  | cons call calls ih => exact ih (rowGroup.step call).2

/-- Calls to the last row group of a file succeed as they do for the row group alone. -/
theorem allSucceed_rowGroup (assembly : FileAssembly) (rowGroup : RowGroupAssembly)
    (calls : List RowGroupCall) :
    AllSucceed step (assembly.withCurrent rowGroup) (calls.map .rowGroup) ↔
      AllSucceed RowGroupAssembly.step rowGroup calls := by
  induction calls generalizing rowGroup with
  | nil => exact Iff.rfl
  | cons call calls ih => exact and_congr Iff.rfl (ih (rowGroup.step call).2)

end FileAssembly

namespace FileCall

/-- The calls to the last row group before another is appended. -/
def current : List FileCall → List RowGroupCall
  | .rowGroup call :: calls => call :: current calls
  | .append _ :: _ | [] => []

/-- The row groups that are appended: the number of rows of each, and the calls to it. -/
def runs : List FileCall → List (Int64 × List RowGroupCall)
  | [] => []
  | .append numRows :: calls => (numRows, current calls) :: runs calls
  | .rowGroup _ :: calls => runs calls

end FileCall

namespace FileAssembly

/-- Every row group of a file is what the calls to it have made of it. -/
theorem rowGroups_after (file : FileAssembly) (calls : List FileCall) :
    (after step file calls).rowGroups =
      file.earlier ++ (file.current.map fun rowGroup =>
          after RowGroupAssembly.step rowGroup (FileCall.current calls)).toList ++
        (FileCall.runs calls).map fun run =>
          after RowGroupAssembly.step (.start file.schema file.policy run.1) run.2 := by
  have uncalled (rowGroup? : Option RowGroupAssembly) :
      (rowGroup?.map fun rowGroup => after RowGroupAssembly.step rowGroup []) = rowGroup? :=
    Option.map_id_apply
  induction calls generalizing file with
  | nil =>
      rw [FileCall.current, uncalled, FileCall.runs, List.map_nil, List.append_nil]
      rfl
  | cons call calls ih =>
      cases call with
      | append numRows =>
          -- The current row group joins the earlier ones; the calls that follow go to the new one.
          refine (ih (file.append numRows)).trans ?_
          rw [FileCall.current, uncalled, FileCall.runs, List.map_cons, List.append_cons]
          rfl
      | rowGroup call =>
          refine (ih (file.step (.rowGroup call)).2).trans ?_
          cases last : file.current with
          | none =>
              simp only [FileAssembly.step, last]
              rfl
          | some rowGroup =>
              simp only [FileAssembly.step, last]
              rfl

end FileAssembly

end ParquetFooter
