import ParquetFooter.Proofs.Assembly.RowGroup
import ParquetFooter.Proofs.Schema.Listing

/-! # Files that are written to the end

A file is written to the plans of its row groups, one row group after the other. When every call
succeeds and the rows can be counted, the file has a footer, which holds the records of the plans in
their order.
-/

namespace ParquetFooter

open Record Calls

/-- The calls that append a row group to a file and write it. -/
def RowGroupPlan.fileCalls (plan : RowGroupPlan) : List FileCall :=
  .append plan.numRows :: plan.calls.map .rowGroup

namespace FileAssembly

/-- A row group that is appended and written is the last one of the file. -/
theorem after_fileCalls {file : FileAssembly} {plan : RowGroupPlan}
    (every : plan.chunks.length = file.schema.numColumns)
    (succeed : AllSucceed step file plan.fileCalls) :
    after step file plan.fileCalls =
      (file.append plan.numRows).withCurrent (plan.finished file.schema file.policy) := by
  have written := succeed.2
  change AllSucceed step ((file.append plan.numRows).withCurrent
    (.start file.schema file.policy plan.numRows)) (plan.calls.map .rowGroup) at written
  rw [allSucceed_rowGroup] at written
  rw [← RowGroupAssembly.after_calls every written, ← after_rowGroup]
  rfl

/-- Row groups that are written to plans are in the file in the order of the plans. -/
theorem after_plans {file : FileAssembly} {plans : List RowGroupPlan}
    (every : ∀ plan ∈ plans, plan.chunks.length = file.schema.numColumns)
    (succeed : AllSucceed step file (plans.flatMap RowGroupPlan.fileCalls)) :
    (after step file (plans.flatMap RowGroupPlan.fileCalls)).schema = file.schema ∧
    (after step file (plans.flatMap RowGroupPlan.fileCalls)).policy = file.policy ∧
    (after step file (plans.flatMap RowGroupPlan.fileCalls)).rowGroups =
      file.rowGroups ++ plans.map (RowGroupPlan.finished file.schema file.policy) := by
  induction plans generalizing file with
  | nil => exact ⟨rfl, rfl, (List.append_nil _).symm⟩
  | cons plan plans ih =>
      obtain ⟨first, others⟩ := List.forall_mem_cons.mp every
      rw [List.flatMap_cons, allSucceed_append] at succeed
      rw [List.flatMap_cons, after_append]
      rw [after_fileCalls first succeed.1] at succeed ⊢
      obtain ⟨sameSchema, samePolicy, inOrder⟩ :=
        @ih ((file.append plan.numRows).withCurrent _) others succeed.2
      refine ⟨sameSchema, samePolicy, inOrder.trans ?_⟩
      rw [List.map_cons, List.append_cons]
      rfl

/-- The footer of a file whose row groups were written to plans. -/
def plannedFooter (schema : Schema) (policy : Policy) (plans : List RowGroupPlan) (total : Int64) :
    Footer where
  version := policy.version.number
  schema := schema.root.listing
  numRows := total
  rowGroups := plans.map (RowGroupPlan.record schema policy)
  keyValueMetadata := policy.keyValueMetadata
  createdBy := some policy.createdBy

/-- The number of row groups of a file that are done. -/
def doneCount (file : FileAssembly) : Nat :=
  file.rowGroups.countP fun rowGroup => decide (rowGroup.stage = .done)

/-- When all row groups are done and the rows can be counted, the schema decides. -/
theorem footer_of_counted {file : FileAssembly} {total : Int64}
    (done : file.doneCount = file.rowGroups.length)
    (counted : runningSum? (file.rowGroups.map (·.record.numRows)) = some total) :
    file.footer = file.schema.root.flatten.map fun elements =>
      { version := file.policy.version.number
        schema := elements
        numRows := total
        rowGroups := file.rowGroups.map (·.record)
        keyValueMetadata := file.policy.keyValueMetadata
        createdBy := some file.policy.createdBy } := by
  rw [doneCount] at done
  rw [footer]
  simp only [done, counted, ne_eq, not_true_eq_false, if_false]
  cases file.schema.root.flatten <;> rfl

/-- A file of row groups that are done and whose rows can be counted has a footer. -/
theorem footer_of_done {file : FileAssembly} {elements : List SchemaElement} {total : Int64}
    (done : file.doneCount = file.rowGroups.length)
    (counted : runningSum? (file.rowGroups.map (·.record.numRows)) = some total)
    (flat : file.schema.root.flatten = .ok elements) :
    file.footer = .ok {
      version := file.policy.version.number
      schema := elements
      numRows := total
      rowGroups := file.rowGroups.map (·.record)
      keyValueMetadata := file.policy.keyValueMetadata
      createdBy := some file.policy.createdBy } := by
  rw [footer_of_counted done counted, flat]
  rfl

/-- A file of finished row groups whose rows can be counted has a footer. -/
theorem footer_eq {file : FileAssembly} {schema : Schema} {policy : Policy}
    {plans : List RowGroupPlan} {total : Int64} (sameSchema : file.schema = schema)
    (samePolicy : file.policy = policy) (flat : schema.root.flatten = .ok schema.root.listing)
    (written : file.rowGroups = plans.map (RowGroupPlan.finished schema policy))
    (counted : runningSum? (plans.map (·.numRows)) = some total) :
    file.footer = .ok (plannedFooter schema policy plans total) := by
  subst sameSchema samePolicy
  have done : file.doneCount = file.rowGroups.length := by
    rw [doneCount, written, List.countP_eq_length]
    intro rowGroup member
    obtain ⟨plan, -, rfl⟩ := List.mem_map.mp member
    rfl
  have rows : file.rowGroups.map (·.record.numRows) = plans.map (·.numRows) := by
    rw [written, List.map_map]
    rfl
  have records : file.rowGroups.map (·.record) =
      plans.map (RowGroupPlan.record file.schema file.policy) := by
    rw [written, List.map_map]
    rfl
  rw [← rows] at counted
  rw [footer_of_done done counted flat, records]
  rfl

/-- The footer of a file that was written to plans. -/
theorem footer_after_plans {schema : Schema} {policy : Policy} {plans : List RowGroupPlan}
    {total : Int64} (flat : schema.root.flatten = .ok schema.root.listing)
    (every : ∀ plan ∈ plans, plan.chunks.length = schema.numColumns)
    (succeed : AllSucceed step (start schema policy) (plans.flatMap RowGroupPlan.fileCalls))
    (counted : runningSum? (plans.map (·.numRows)) = some total) :
    (after step (start schema policy) (plans.flatMap RowGroupPlan.fileCalls)).footer =
      .ok (plannedFooter schema policy plans total) := by
  obtain ⟨sameSchema, samePolicy, inOrder⟩ := after_plans every succeed
  exact footer_eq sameSchema samePolicy flat inOrder counted

end FileAssembly

end ParquetFooter
