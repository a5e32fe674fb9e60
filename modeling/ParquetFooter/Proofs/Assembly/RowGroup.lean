import ParquetFooter.Proofs.Assembly.Calls
import ParquetFooter.Proofs.Assembly.Chunk

/-! # Row groups that are written to the end

A row group that is written to a plan hands out its slots in the order of the columns. When its
finish succeeds, the record holds the chunks of the plan, column by column.
-/

namespace ParquetFooter

open Record Calls

/-- How a row group is written: a plan for every column, and the size that it is finished with. -/
structure RowGroupPlan where
  numRows : Int64
  /-- The plans of the chunks, in the order of the columns. -/
  chunks : List ChunkPlan
  /-- The number of bytes that were written. -/
  written : Int64
deriving DecidableEq, Repr

namespace RowGroupPlan

/-- The calls that write a row group. -/
def calls (plan : RowGroupPlan) : List RowGroupCall :=
  (plan.chunks.map fun chunk => .column chunk.edits (some chunk.summary)) ++ [.finish plan.written]

/-- The records of the chunks, as far as there are both leaves and plans. -/
def columns (schema : Schema) (policy : Policy) (plan : RowGroupPlan) : List ColumnChunk :=
  List.zipWith (fun leaf chunk => chunk.chunk policy leaf.toColumn) schema.leaves plan.chunks

/-- A plan with a chunk for every column fills all slots. -/
theorem length_columns {schema : Schema} {policy : Policy} {plan : RowGroupPlan}
    (every : plan.chunks.length = schema.numColumns) :
    (plan.columns schema policy).length = schema.numColumns := by
  rw [columns, List.length_zipWith, every]
  exact Nat.min_self _

/-- Every record of a planned row group is that of a plan for a leaf. -/
theorem exists_of_mem_columns {schema : Schema} {policy : Policy} {plan : RowGroupPlan}
    {record : ColumnChunk} (member : record ∈ plan.columns schema policy) :
    ∃ leaf ∈ schema.leaves, ∃ chunk ∈ plan.chunks,
      record = chunk.chunk policy leaf.toColumn := by
  rw [columns, ← List.map_uncurry_zip_eq_zipWith] at member
  obtain ⟨⟨leaf, chunk⟩, paired, rfl⟩ := List.mem_map.mp member
  obtain ⟨leafMember, chunkMember⟩ := List.of_mem_zip paired
  exact ⟨leaf, leafMember, chunk, chunkMember, rfl⟩

/-- The record of a row group that was written to a plan. -/
def record (schema : Schema) (policy : Policy) (plan : RowGroupPlan) : RowGroup :=
  ⟨plan.columns schema policy, plan.written, plan.numRows⟩

/-- A row group that was written to a plan. -/
def finished (schema : Schema) (policy : Policy) (plan : RowGroupPlan) : RowGroupAssembly :=
  ⟨schema, policy, plan.record schema policy, schema.numColumns, .done⟩

end RowGroupPlan

namespace RowGroupAssembly

/-- A row group of which the first columns are written. -/
def reached (schema : Schema) (policy : Policy) (numRows : Int64) (columns : List ColumnChunk) :
    RowGroupAssembly where
  schema := schema
  policy := policy
  record := ⟨columns ++ List.replicate (schema.numColumns - columns.length) .empty, 0, numRows⟩
  nextColumn := columns.length
  stage := .accepting

variable {schema : Schema} {policy : Policy} {numRows : Int64}

theorem start_eq_reached : start schema policy numRows = reached schema policy numRows [] := rfl

/-- To fill the first empty slot is to have one more column written. -/
theorem set_first_empty {columns : List ColumnChunk} {count : Nat} (short : columns.length < count)
    (chunk : ColumnChunk) :
    (columns ++ List.replicate (count - columns.length) ColumnChunk.empty).set columns.length
        chunk =
      (columns ++ [chunk]) ++
        List.replicate (count - (columns ++ [chunk]).length) ColumnChunk.empty := by
  obtain ⟨others, rfl⟩ := Nat.exists_eq_add_of_lt short
  have slots : columns.length + others + 1 - columns.length = others + 1 := by omega
  have left : columns.length + others + 1 - (columns ++ [chunk]).length = others := by
    rw [List.length_append, List.length_singleton]
    omega
  rw [slots, left, List.set_append_right _ _ (Nat.le_refl _), Nat.sub_self, List.replicate_succ,
    List.set_cons_zero, List.append_assoc, List.singleton_append]

/-- The next column is put behind those that are written. -/
theorem step_column {columns : List ColumnChunk} {leaf : Leaf}
    (next : schema.leaves[columns.length]? = some leaf) (chunk : ChunkPlan) :
    (reached schema policy numRows columns).step (.column chunk.edits (some chunk.summary)) =
      (.ok (some (.start policy leaf.toColumn)),
        reached schema policy numRows (columns ++ [chunk.chunk policy leaf.toColumn])) := by
  obtain ⟨inside, -⟩ := List.getElem?_eq_some_iff.mp next
  have short : columns.length < schema.numColumns := inside
  have put : (reached schema policy numRows columns).putColumn
      (chunk.chunk policy leaf.toColumn) =
      reached schema policy numRows (columns ++ [chunk.chunk policy leaf.toColumn]) := by
    have slots := set_first_empty short (chunk.chunk policy leaf.toColumn)
    simp only [putColumn, reached, slots, List.length_append, List.length_singleton]
  rw [step_column_of_leaf rfl next, ← put]
  rfl

/-- Plans for the next columns are carried out one by one. -/
theorem after_columns {columns : List ColumnChunk} {leaves : List Leaf} {chunks : List ChunkPlan}
    (next : schema.leaves.drop columns.length = leaves) (enough : chunks.length ≤ leaves.length) :
    after step (reached schema policy numRows columns)
        (chunks.map fun chunk => .column chunk.edits (some chunk.summary)) =
      reached schema policy numRows (columns ++
        List.zipWith (fun leaf chunk => chunk.chunk policy leaf.toColumn) leaves chunks) := by
  induction chunks generalizing columns leaves with
  | nil => rw [List.zipWith_nil_right, List.append_nil]; rfl
  | cons chunk chunks ih =>
      cases leaves with
      | nil => exact absurd enough (Nat.not_succ_le_zero _)
      | cons leaf leaves =>
          have here : schema.leaves[columns.length]? = some leaf := by
            rw [← List.head?_drop, next, List.head?_cons]
          have behind : schema.leaves.drop
              (columns ++ [chunk.chunk policy leaf.toColumn]).length = leaves := by
            rw [List.length_append, List.length_singleton, ← List.tail_drop, next, List.tail_cons]
          have others := ih behind (Nat.le_of_succ_le_succ enough)
          rw [List.append_assoc, List.singleton_append] at others
          rw [List.map_cons, List.zipWith_cons_cons, ← others, after, List.foldl_cons,
            step_column here]
          rfl

/-- A finish that succeeds records the size and closes the row group. -/
theorem step_finish {assembly : RowGroupAssembly} {written : Int64}
    (succeeds : ∃ answer, (assembly.step (.finish written)).1 = .ok answer) :
    (assembly.step (.finish written)).2 =
      { assembly with
        record := { assembly.record with totalByteSize := written }
        stage := .done } := by
  obtain ⟨answer, answered⟩ := succeeds
  by_cases accepting : assembly.stage = .accepting
  · cases checked : assembly.check written with
    | ok => rw [step_finish_of_check accepting checked]
    | error fault =>
        rw [step_finish_of_fault accepting checked] at answered
        exact nomatch answered
  · rw [step_of_closed accepting] at answered
    exact nomatch answered

/-- A row group all of whose columns are written, and whose finish succeeds, is that of its plan. -/
theorem after_calls {plan : RowGroupPlan} (every : plan.chunks.length = schema.numColumns)
    (succeed : AllSucceed step (start schema policy plan.numRows) plan.calls) :
    after step (start schema policy plan.numRows) plan.calls = plan.finished schema policy := by
  have written : after step (start schema policy plan.numRows)
      (plan.chunks.map fun chunk => .column chunk.edits (some chunk.summary)) =
      reached schema policy plan.numRows (plan.columns schema policy) := by
    have all : schema.leaves.drop ([] : List ColumnChunk).length = schema.leaves := List.drop_zero
    rw [start_eq_reached]
    exact after_columns all (Nat.le_of_eq every)
  rw [RowGroupPlan.calls, allSucceed_append, written] at succeed
  rw [RowGroupPlan.calls, after_append, written]
  obtain ⟨-, finishes, -⟩ := succeed
  rw [after, List.foldl_cons, step_finish finishes]
  simp only [List.foldl_nil, reached, RowGroupPlan.length_columns every, Nat.sub_self,
    List.replicate_zero, List.append_nil]
  rfl

end RowGroupAssembly

end ParquetFooter
