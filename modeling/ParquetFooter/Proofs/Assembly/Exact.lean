import ParquetFooter.Proofs.Assembly.Outcome

/-! # The numbers of a finished file

The end of a chunk is added up with wrap-around, but only positive ends are let into a file, and for
a size that is not negative a positive end was not wrapped around. The other sums are formed step by
step within the range. So every number of a finished file that is a sum is the exact sum, and what a
row group is said to hold is what its finish was given.
-/

namespace ParquetFooter

open Record Calls

/-- A sum that wraps around because of a term that is not negative comes out negative. -/
theorem toInt_add_of_pos {first size : Int64} (nonneg : 0 ≤ size) (positive : 0 < first + size) :
    (first + size).toInt = first.toInt + size.toInt := by
  rw [Int64.le_iff_toInt_le, Int64.toInt_zero] at nonneg
  rw [Int64.lt_iff_toInt_lt, Int64.toInt_zero, Int64.toInt_add] at positive
  rw [Int64.toInt_add]
  have firstLow := first.le_toInt
  have firstHigh := first.toInt_lt
  have sizeHigh := size.toInt_lt
  apply Int.bmod_eq_of_le
  · omega
  · by_contra beyond
    rw [Int.bmod_def] at positive
    omega

/-- The offset of the first page of a chunk: that of the dictionary page if it is positive. -/
def Record.ColumnMetadata.firstPageOffset (metadata : ColumnMetadata) : Int64 :=
  match metadata.dictionaryPageOffset with
  | some offset => if 0 < offset then offset else metadata.dataPageOffset
  | none => metadata.dataPageOffset

/-- A chunk has a positive offset, which is the exact end of its pages unless their size is
negative. -/
def Record.ColumnChunk.Exact (chunk : ColumnChunk) : Prop :=
  ∃ metadata, chunk.metadata = some metadata ∧ 0 < chunk.fileOffset ∧
    (0 ≤ metadata.totalCompressedSize →
      chunk.fileOffset.toInt =
        metadata.firstPageOffset.toInt + metadata.totalCompressedSize.toInt)

/-- The record of a chunk that was finished at a positive end is exact. -/
theorem HandedChunk.exact {handed : HandedChunk} {policy : Policy} {column : Column Primitive}
    (started : handed.started = .start policy column) (finished : handed.summary?.isSome)
    (positive : 0 < handed.record.fileOffset) : handed.record.Exact := by
  obtain ⟨_, edits, summary?⟩ := handed
  subst started
  obtain ⟨summary, rfl⟩ := Option.isSome_iff_exists.mp finished
  have record : HandedChunk.record ⟨.start policy column, edits, some summary⟩ =
      ChunkPlan.chunk policy column ⟨edits, summary⟩ := rfl
  rw [record, ChunkPlan.chunk_eq] at positive ⊢
  exact ⟨_, rfl, positive, fun nonneg => toInt_add_of_pos nonneg positive⟩

/-- The size of a row group is the exact sum of the sizes of its chunks, whose offsets are exact. -/
structure Record.RowGroup.Exact (record : RowGroup) : Prop where
  totalByteSize : record.totalByteSize.toInt = (record.compressedSizes.map Int64.toInt).sum
  columns : ∀ chunk ∈ record.columns, chunk.Exact

namespace RowGroupAssembly

variable {schema : Schema} {policy : Policy} {numRows : Int64} {handed : List HandedChunk}
  {assembly : RowGroupAssembly}

/-- Slots that are still empty have no offset. -/
theorem Stands.all_of_pos (stands : Stands schema policy numRows handed assembly)
    (positive : ∀ chunk ∈ assembly.record.columns, 0 < chunk.fileOffset) :
    handed.length = schema.numColumns := by
  by_contra some
  have short : handed.length < schema.numColumns := Nat.lt_of_le_of_ne stands.length_le some
  have empty := List.mem_of_getElem? (stands.empty (Nat.le_refl _) short)
  exact absurd (positive _ empty) (by decide)

/-- The record of a row group that is done is exact. -/
theorem Stands.exact (stands : Stands schema policy numRows handed assembly)
    (done : assembly.stage = .done) : assembly.record.Exact := by
  have complete := stands.complete done
  refine ⟨complete.totalByteSize, fun chunk member => ?_⟩
  have slots := stands.slots
  rw [complete.all, Nat.sub_self, List.replicate_zero, List.append_nil] at slots
  have positive := (complete.slots chunk member).2
  rw [slots] at member
  obtain ⟨left, leftMember, rfl⟩ := List.mem_map.mp member
  obtain ⟨leaf, -, started⟩ := stands.exists_started leftMember
  exact HandedChunk.exact started (complete.finished left leftMember) positive

/-- A finish finds an overflow when all chunks count and a sum of their sizes leaves the range. -/
theorem Stands.finish_overflows_iff (stands : Stands schema policy numRows handed assembly)
    (accepting : assembly.stage = .accepting)
    (positive : ∀ chunk ∈ assembly.record.columns, 0 < chunk.fileOffset) (written : Int64) :
    (assembly.step (.finish written)).1 = .error (.inconsistent .sizeOverflow) ↔
      Overflows assembly.record.compressedSizes := by
  have started : assembly.nextColumn = assembly.numColumns := by
    rw [stands.nextColumn, stands.all_of_pos positive]
    exact stands.length_columns.symm
  have finished := assembly.record.finishedCount_eq_iff.mpr positive
  rw [answer_finish accepting, check_of_finished started finished, ← runningSum?_eq_none_iff]
  cases runningSum? assembly.record.compressedSizes with
  | none => exact iff_of_true rfl rfl
  | some total =>
      by_cases same : total = written
      · simp [same, Except.map]
      · simp [same, Except.map]

end RowGroupAssembly

namespace FileAssembly

/-- The footer of a file is that of row groups that are done, with the sum of their rows. -/
theorem footer_eq_ok {file : FileAssembly} {record : Footer} (made : file.footer = .ok record) :
    (∀ rowGroup ∈ file.rowGroups, rowGroup.stage = .done) ∧
      runningSum? (file.rowGroups.map (·.record.numRows)) = some record.numRows ∧
      record.rowGroups = file.rowGroups.map (·.record) := by
  by_cases done : file.doneCount = file.rowGroups.length
  · cases counted : runningSum? (file.rowGroups.map (·.record.numRows)) with
    | none =>
        rw [footer_of_overflow done counted] at made
        cases made
    | some total =>
        rw [footer_of_counted done counted] at made
        rw [doneCount, List.countP_eq_length] at done
        cases flat : file.schema.root.flatten with
        | error fault =>
            rw [flat] at made
            cases made
        | ok elements =>
            rw [flat] at made
            obtain rfl := Except.ok.inj made
            exact ⟨fun rowGroup member => of_decide_eq_true (done rowGroup member), rfl, rfl⟩
  · rw [footer_of_unfinished done] at made
    cases made

/-- A record in a finished file tells of the calls by which its row group was written: the rows that
it was appended with, the size that was given to the finish that succeeded, and exact numbers. -/
structure Tells (schema : Schema) (policy : Policy) (run : Int64 × List RowGroupCall)
    (record : RowGroup) : Prop where
  numRows : record.numRows = run.1
  finish : ∃ front written back, run.2 = front ++ .finish written :: back ∧
    ((after RowGroupAssembly.step (.start schema policy run.1) front).step (.finish written)).1 =
      .ok none ∧
    record.totalByteSize = written
  exact : record.Exact

/-- The record of a row group that is done tells of the calls to it. -/
theorem tells {schema : Schema} {policy : Policy} {run : Int64 × List RowGroupCall}
    {rowGroup : RowGroupAssembly}
    (made : rowGroup = after RowGroupAssembly.step (.start schema policy run.1) run.2)
    (done : rowGroup.stage = .done) : Tells schema policy run rowGroup.record := by
  subst made
  have stands : RowGroupAssembly.Stands schema policy run.1
      ([] ++ RowGroupAssembly.handedOut (.start schema policy run.1) run.2)
      (after RowGroupAssembly.step (.start schema policy run.1) run.2) :=
    RowGroupAssembly.Stands.start.after run.2
  exact ⟨stands.numRows, RowGroupAssembly.exists_finish rfl done, stands.exact done⟩

/-- **No number of a finished file is wrapped around.** Whatever calls were made: when a file is
finished, its rows are the exact sum of those of its row groups, and each row group tells of the
calls by which it was written. Finishing a row group all of whose chunks count finds an overflow
exactly when a sum of their sizes, taken in the order of the columns, leaves the 64 bit range; where
no size is negative, this comes down to the whole sum. -/
theorem finish_exact (schema : Schema) (policy : Policy) (calls : List FileCall) :
    (∀ metadata, (after step (start schema policy) calls).finish = .ok metadata →
      metadata.record.numRows.toInt =
        (metadata.record.rowGroups.map fun rowGroup => rowGroup.numRows.toInt).sum ∧
      List.Forall₂ (Tells schema policy) (FileCall.runs calls) metadata.record.rowGroups) ∧
    ∀ numRows rowGroupCalls written,
      let rowGroup := after RowGroupAssembly.step (.start schema policy numRows) rowGroupCalls
      rowGroup.stage = .accepting → (∀ chunk ∈ rowGroup.record.columns, 0 < chunk.fileOffset) →
      ((rowGroup.step (.finish written)).1 = .error (.inconsistent .sizeOverflow) ↔
        Overflows rowGroup.record.compressedSizes) ∧
      ((∀ size ∈ rowGroup.record.compressedSizes, 0 ≤ size) →
        (Overflows rowGroup.record.compressedSizes ↔
          ¬ InRange (rowGroup.record.compressedSizes.map Int64.toInt).sum)) := by
  constructor
  · intro metadata finished
    have rowGroups : (after step (start schema policy) calls).rowGroups =
        (FileCall.runs calls).map fun run =>
          after RowGroupAssembly.step (.start schema policy run.1) run.2 :=
      rowGroups_after (start schema policy) calls
    cases made : (after step (start schema policy) calls).footer with
    | error fault =>
        rw [finish_of_footer_error made] at finished
        cases finished
    | ok record =>
        rw [finish_of_footer made] at finished
        obtain ⟨-, -, -, -, -, rfl⟩ := FileMetadata.ofRecord_eq_ok.mp finished
        obtain ⟨done, counted, records⟩ := footer_eq_ok made
        constructor
        · rw [toInt_of_runningSum? counted, records, List.map_map, List.map_map]
          rfl
        · rw [rowGroups, List.forall_mem_map] at done
          rw [records, rowGroups, List.map_map, List.forall₂_map_right_iff, List.forall₂_same]
          exact fun run member => tells rfl (done run member)
  · intro numRows rowGroupCalls written rowGroup accepting positive
    have stands : RowGroupAssembly.Stands schema policy numRows _ rowGroup :=
      RowGroupAssembly.Stands.start.after rowGroupCalls
    exact ⟨stands.finish_overflows_iff accepting positive written, overflows_iff_of_nonneg⟩

/-- A schema of two columns. -/
def twoColumns : Schema where
  root := .group ⟨"schema", none, none⟩
    [.primitive RowGroupAssembly.oneLeaf, .primitive RowGroupAssembly.oneLeaf]
  leaves := [⟨⟨RowGroupAssembly.oneLeaf, ⟨["key"]⟩, 0, 0⟩, 0⟩,
    ⟨⟨RowGroupAssembly.oneLeaf, ⟨["key"]⟩, 0, 0⟩, 1⟩]

/-- Two row groups are finished with exact sums; the sizes of two large chunks cannot be added. -/
theorem finish_exact_sample :
    (∃ metadata, (after step (start RowGroupAssembly.oneColumn .default)
        (oneRowGroup 3 ++ oneRowGroup 5)).finish = .ok metadata ∧
      metadata.record.numRows.toInt =
        (metadata.record.rowGroups.map fun rowGroup => rowGroup.numRows.toInt).sum ∧
      List.Forall₂ (Tells RowGroupAssembly.oneColumn .default)
        (FileCall.runs (oneRowGroup 3 ++ oneRowGroup 5)) metadata.record.rowGroups) ∧
    ((after RowGroupAssembly.step (.start twoColumns .default 1)
        [.column [] (some ⟨1, none, none, 0, Int64.maxValue, Int64.maxValue, false⟩),
          .column [] (some ⟨1, none, none, 0, 10, 10, false⟩)]).step (.finish 0)).1 =
      .error (.inconsistent .sizeOverflow) := by
  constructor
  · have finishes : ∃ metadata, (after step (start RowGroupAssembly.oneColumn .default)
        (oneRowGroup 3 ++ oneRowGroup 5)).finish = .ok metadata := by
      have described : Schema.ofNode RowGroupAssembly.oneColumn.root =
          .ok RowGroupAssembly.oneColumn := rfl
      have collects : Collects RowGroupAssembly.oneColumn .default _
          (after step (start RowGroupAssembly.oneColumn .default)
            (oneRowGroup 3 ++ oneRowGroup 5)) := Collects.start.after _
      rcases collects.finish described (by decide) (by decide) with
        ⟨fault, refused, -⟩ | ⟨-, finished⟩
      · have free : refusal? RowGroupAssembly.oneColumn.root [3, 5] 2 = none := by decide +kernel
        cases refused.symm.trans free
      · exact finished
    obtain ⟨metadata, finished⟩ := finishes
    exact ⟨metadata, finished,
      (finish_exact RowGroupAssembly.oneColumn .default _).1 metadata finished⟩
  · apply ((finish_exact twoColumns .default []).2 1 _ 0 rfl ?_).1.mpr
    · decide
    · decide

end FileAssembly

end ParquetFooter
