import ParquetFooter.Proofs.Assembly.Slots

/-! # What finishing a row group finds

A chunk counts as finished when its offset is positive. As the offset is the end of the chunk, added
up with wrap-around, a chunk may be finished and not count: one that ends at 0, or one whose end
leaves the 64 bit range. So a row group counts as incomplete when a chunk was not handed out, or was
not finished, or was finished at such an end (`HandedChunk.Counts`).
-/

namespace ParquetFooter

open Record Calls

/-- A chunk was finished, at a positive offset. -/
def HandedChunk.Counts (handed : HandedChunk) : Prop :=
  ∃ summary, handed.summary? = some summary ∧ 0 < summary.endOffset

/-- A chunk counts when its end is positive; the end of one that was not finished is 0. -/
theorem HandedChunk.counts_iff (handed : HandedChunk) :
    handed.Counts ↔ 0 < handed.endOffset := by
  unfold Counts endOffset
  cases handed.summary? with
  | none => exact iff_of_false nofun (by decide)
  | some summary => simp

namespace RowGroupAssembly

variable {schema : Schema} {policy : Policy} {numRows : Int64} {handed : List HandedChunk}
  {assembly : RowGroupAssembly} {written : Int64}

namespace Stands

/-- Slots that are empty never count. -/
theorem finishedCount_eq (stands : Stands schema policy numRows handed assembly) :
    assembly.record.finishedCount = handed.countP fun chunk => decide (0 < chunk.endOffset) := by
  have empty : (List.replicate (schema.numColumns - handed.length) ColumnChunk.empty).countP
      (fun chunk => decide (0 < chunk.fileOffset)) = 0 := by
    rw [List.countP_replicate]
    rfl
  rw [RowGroup.finishedCount, stands.slots, List.countP_append, empty, Nat.add_zero,
    List.countP_map]
  refine List.countP_congr fun chunk member => ?_
  obtain ⟨leaf, -, started⟩ := stands.exists_started member
  rw [Function.comp_apply, HandedChunk.fileOffset_record started]

/-- All slots count when every column was handed out and all its chunks count. -/
theorem finishedCount_eq_iff (stands : Stands schema policy numRows handed assembly)
    (all : handed.length = schema.numColumns) :
    assembly.record.finishedCount = assembly.numColumns ↔ ∀ chunk ∈ handed, chunk.Counts := by
  have length : assembly.numColumns = handed.length := stands.length_columns.trans all.symm
  rw [stands.finishedCount_eq, length, List.countP_eq_length]
  simp only [decide_eq_true_eq, HandedChunk.counts_iff]

variable (stands : Stands schema policy numRows handed assembly)
  (accepting : assembly.stage = .accepting)
include stands accepting

/-- While columns are left, a finish tells how many were handed out. -/
theorem finish_of_left (left : handed.length ≠ schema.numColumns) :
    (assembly.step (.finish written)).1 =
      .error (.incomplete schema.numColumns handed.length) := by
  have length : assembly.numColumns = schema.numColumns := stands.length_columns
  have unstarted : assembly.nextColumn ≠ assembly.numColumns := by
    rwa [stands.nextColumn, length]
  rw [answer_finish accepting, check_of_unstarted unstarted, length, stands.nextColumn]
  rfl

/-- When all columns were handed out, a finish tells how many of the chunks count. -/
theorem finish_of_uncounted (all : handed.length = schema.numColumns)
    (uncounted : ¬ ∀ chunk ∈ handed, chunk.Counts) :
    (assembly.step (.finish written)).1 = .error (.incomplete schema.numColumns
      (handed.countP fun chunk => decide (0 < chunk.endOffset))) := by
  have length : assembly.numColumns = schema.numColumns := stands.length_columns
  have started : assembly.nextColumn = assembly.numColumns := by
    rw [stands.nextColumn, length, all]
  have unfinished : assembly.record.finishedCount ≠ assembly.numColumns :=
    (stands.finishedCount_eq_iff all).not.mpr uncounted
  rw [answer_finish accepting, check_of_unfinished started unfinished, length,
    stands.finishedCount_eq]
  rfl

/-- When all chunks count, only their sizes can be wrong. -/
theorem finish_of_counted (all : handed.length = schema.numColumns)
    (counted : ∀ chunk ∈ handed, chunk.Counts) :
    (assembly.step (.finish written)).1 = .ok none ∨
      ∃ reason, (assembly.step (.finish written)).1 = .error (.inconsistent reason) := by
  have started : assembly.nextColumn = assembly.numColumns := by
    rw [stands.nextColumn, all]
    exact stands.length_columns.symm
  have finished := (stands.finishedCount_eq_iff all).mpr counted
  rw [answer_finish accepting]
  cases checked : assembly.check written with
  | ok => exact .inl rfl
  | error fault =>
      obtain ⟨reason, rfl⟩ := inconsistent_of_check started finished checked
      exact .inr ⟨reason, rfl⟩

end Stands

/-- **What counts as incomplete.** Whatever calls were made to a row group that is not closed:
finishing it says that it is incomplete exactly when a column was not handed out, or a chunk was not
finished or ends at 0 or below. Otherwise it succeeds or finds the sizes inconsistent. -/
theorem finish_incomplete_iff (schema : Schema) (policy : Policy) (numRows : Int64)
    (calls : List RowGroupCall) (written : Int64)
    (accepting : (after step (start schema policy numRows) calls).stage = .accepting) :
    let answer := ((after step (start schema policy numRows) calls).step (.finish written)).1
    let handed := handedOut (start schema policy numRows) calls
    ((∃ expected actual, answer = .error (.incomplete expected actual)) ↔
      handed.length ≠ schema.numColumns ∨ ∃ chunk ∈ handed, ¬ chunk.Counts) ∧
    (handed.length = schema.numColumns → (∀ chunk ∈ handed, chunk.Counts) →
      answer = .ok none ∨ ∃ reason, answer = .error (.inconsistent reason)) := by
  intro answer handed
  have stands : Stands schema policy numRows handed
      (after step (start schema policy numRows) calls) := Stands.start.after calls
  refine ⟨?_, stands.finish_of_counted accepting⟩
  by_cases all : handed.length = schema.numColumns
  · by_cases counted : ∀ chunk ∈ handed, chunk.Counts
    · apply iff_of_false
      · rintro ⟨expected, actual, incomplete⟩
        have fails : answer = .ok none ∨ ∃ reason, answer = .error (.inconsistent reason) :=
          stands.finish_of_counted accepting all counted
        rcases fails with fine | ⟨reason, wrong⟩
        · cases incomplete.symm.trans fine
        · cases incomplete.symm.trans wrong
      · rintro (left | ⟨chunk, member, uncounted⟩)
        · exact left all
        · exact uncounted (counted chunk member)
    · refine iff_of_true ⟨_, _, stands.finish_of_uncounted accepting all counted⟩ (.inr ?_)
      simpa using counted
  · exact iff_of_true ⟨_, _, stands.finish_of_left accepting all⟩ (.inl all)

/-- The calls that write a chunk of so many bytes behind the magic number. -/
def oneChunk (size : Int64) : List RowGroupCall :=
  [.column [] (some ⟨1, none, none, 4, size, size, false⟩)]

/-- Without chunks, or with a chunk that ends at 0, a row group is incomplete. -/
theorem finish_incomplete_iff_sample :
    (∃ expected actual, ((start oneColumn .default 1).step (.finish 0)).1 =
      .error (.incomplete expected actual)) ∧
    (∃ expected actual,
      ((after step (start oneColumn .default 1) (oneChunk (-4))).step (.finish 0)).1 =
        .error (.incomplete expected actual)) ∧
    (((after step (start oneColumn .default 1) (oneChunk 24)).step (.finish 0)).1 = .ok none ∨
      ∃ reason, ((after step (start oneColumn .default 1) (oneChunk 24)).step (.finish 0)).1 =
        .error (.inconsistent reason)) := by
  refine ⟨(finish_incomplete_iff oneColumn .default 1 [] 0 rfl).1.mpr (.inl (by decide)),
    (finish_incomplete_iff oneColumn .default 1 (oneChunk (-4)) 0 rfl).1.mpr (.inr ?_),
    (finish_incomplete_iff oneColumn .default 1 (oneChunk 24) 0 rfl).2 rfl ?_⟩
  · refine ⟨_, List.mem_singleton_self _, ?_⟩
    rw [HandedChunk.counts_iff]
    decide
  · intro chunk member
    obtain rfl := List.mem_singleton.mp member
    exact ⟨_, rfl, by decide⟩

/-- A chunk that is finished without any bytes at the start of the file does not count. -/
theorem finish_incomplete_at_zero :
    let empty : List RowGroupCall := [.column [] (some ⟨0, none, none, 0, 0, 0, false⟩)]
    let assembly := after step (start oneColumn .default 0) empty
    let handed := handedOut (start oneColumn .default 0) empty
    assembly.stage = .accepting ∧ handed.length = oneColumn.numColumns ∧
    (∀ chunk ∈ handed, chunk.summary?.isSome) ∧
    (assembly.step (.finish 0)).1 = .error (.incomplete 1 0) := by
  decide

end RowGroupAssembly

end ParquetFooter
